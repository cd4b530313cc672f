import LiveLisp.Backend.Frame
/-!
# Framing does not depend on chunks

What a connection sends is one byte string, however it is cut into chunks and however often
reading is interrupted.  Receiving again and again gives one response for every terminated segment
of that string, and then the end of the connection.  The bridge is `scan_append`: passing over two
stretches of a segment one after the other is passing over both at once.
-/

namespace LiveLisp.Backend

open Text

/-! ## Segments and their pieces -/

/-- The texts that a segment hands over: its pieces that end in a flush mark. -/
def flushesOf (segment : List UInt8) : List String :=
  (segment.splitOn flushMark).dropLast.map Utf8.decodeLossy

/-- The bytes of a segment after its last flush mark. -/
def remainderOf (segment : List UInt8) : List UInt8 := (segment.splitOn flushMark).getLastD []

/-- What receiving has to give for a byte string: a response for every terminated segment, and at
the end of the connection what the unterminated one still hands over. -/
def receptionsOf (bytes : List UInt8) : List (List String × Except Failure String) :=
  let segments := bytes.splitOn terminator
  segments.dropLast.map (fun s => (flushesOf s, .ok (Utf8.decodeLossy (remainderOf s)))) ++
    [(flushesOf (segments.getLastD []), .error .connectionClosed)]

theorem flushesOf_of_not_mem {segment : List UInt8} (h : flushMark ∉ segment) :
    flushesOf segment = [] := by
  simp [flushesOf, List.splitOn_eq_singleton h]

theorem remainderOf_of_not_mem {segment : List UInt8} (h : flushMark ∉ segment) :
    remainderOf segment = segment := by
  simp [remainderOf, List.splitOn_eq_singleton h]

theorem flushesOf_append_mark {piece : List UInt8} (h : flushMark ∉ piece)
    (segment : List UInt8) :
    flushesOf (piece ++ flushMark :: segment) = Utf8.decodeLossy piece :: flushesOf segment := by
  have hne : segment.splitOn flushMark ≠ [] := List.splitOn_ne_nil flushMark segment
  rw [flushesOf, List.splitOn_append_cons_self_of_not_mem h _,
    List.dropLast_cons_of_ne_nil hne]
  rfl

theorem remainderOf_append_mark {piece : List UInt8} (h : flushMark ∉ piece)
    (segment : List UInt8) :
    remainderOf (piece ++ flushMark :: segment) = remainderOf segment := by
  have hne : segment.splitOn flushMark ≠ [] := List.splitOn_ne_nil flushMark segment
  rw [remainderOf, List.splitOn_append_cons_self_of_not_mem h _, remainderOf,
    List.getLastD_cons]
  obtain ⟨a, as, has⟩ := List.exists_cons_of_ne_nil hne
  rw [has]
  rfl

theorem receptionsOf_of_not_mem {bytes : List UInt8} (h : terminator ∉ bytes) :
    receptionsOf bytes = [(flushesOf bytes, .error .connectionClosed)] := by
  simp [receptionsOf, List.splitOn_eq_singleton h]

theorem receptionsOf_append_terminator {segment : List UInt8} (h : terminator ∉ segment)
    (bytes : List UInt8) :
    receptionsOf (segment ++ terminator :: bytes) =
      (flushesOf segment, .ok (Utf8.decodeLossy (remainderOf segment))) ::
        receptionsOf bytes := by
  have hne : bytes.splitOn terminator ≠ [] := List.splitOn_ne_nil terminator bytes
  obtain ⟨a, as, has⟩ := List.exists_cons_of_ne_nil hne
  simp only [receptionsOf, List.splitOn_append_cons_self_of_not_mem h _, has,
    List.dropLast_cons_of_ne_nil (List.cons_ne_nil a as), List.map_cons, List.cons_append,
    List.getLastD_cons]

/-! ## Passing over bytes -/

/-- Two stretches are passed over one after the other, the second only if the first has no
terminator. -/
theorem scan_append (kept xs ys : List UInt8) :
    scan kept (xs ++ ys) =
      match (scan kept xs).rest with
      | some rest => { scan kept xs with rest := some (rest ++ ys) }
      | none =>
        { scan (scan kept xs).kept ys with
          flushed := (scan kept xs).flushed ++ (scan (scan kept xs).kept ys).flushed } := by
  induction xs generalizing kept with
  | nil => rfl
  | cons b xs ih =>
    rw [List.cons_append]
    by_cases hmark : b = flushMark
    · simp only [scan, hmark, if_true, ih]
      cases (scan [] xs).rest <;> rfl
    · by_cases hend : b = terminator
      · simp only [scan, hend, if_true]
        rfl
      · simp only [scan, hmark, hend, if_false, ih]

/-- Over a stretch without terminator the kept bytes join what follows them. -/
theorem scan_of_not_mem {kept xs : List UInt8} (hkept : flushMark ∉ kept)
    (hxs : terminator ∉ xs) :
    scan kept xs =
      ⟨flushesOf (kept.reverse ++ xs), (remainderOf (kept.reverse ++ xs)).reverse, none⟩ := by
  induction xs generalizing kept with
  | nil =>
    have hrev : flushMark ∉ kept.reverse := by simpa using hkept
    simp [scan, flushesOf_of_not_mem hrev, remainderOf_of_not_mem hrev]
  | cons b xs ih =>
    have hb : b ≠ terminator := fun h => hxs (by simp [h])
    have htail : terminator ∉ xs := fun h => hxs (by simp [h])
    by_cases hmark : b = flushMark
    · have hrev : flushMark ∉ kept.reverse := by simpa using hkept
      have hnext := @ih [] (by simp) htail
      subst hmark
      simp only [scan, if_true, hnext, List.reverse_nil, List.nil_append,
        flushesOf_append_mark hrev, remainderOf_append_mark hrev, keptText]
    · have hnext := @ih (b :: kept) (by simp [Ne.symm hmark, hkept]) htail
      simp only [scan, hmark, hb, if_false, hnext, List.reverse_cons, List.append_assoc,
        List.singleton_append]

/-- The first terminator ends the segment before it. -/
theorem scan_terminated {xs : List UInt8} (hxs : terminator ∉ xs) (rest : List UInt8) :
    scan [] (xs ++ terminator :: rest) = ⟨flushesOf xs, (remainderOf xs).reverse, some rest⟩ := by
  have hend : ∀ kept, scan kept (terminator :: rest) = ⟨[], kept, some rest⟩ := by
    intro kept
    simp [scan, terminator, flushMark]
  rw [scan_append, scan_of_not_mem (by simp) hxs]
  simp only [hend, List.append_nil, List.reverse_nil, List.nil_append]

/-! ## Chunks -/

/-- A delivery that does not end the stream: bytes, at least one, or an interruption. -/
def Delivery.GoesOn : Delivery → Prop
  | .bytes chunk => chunk ≠ []
  | .interrupted => True
  | .failed _ => False

def Delivery.carried : Delivery → List UInt8
  | .bytes chunk => chunk
  | .interrupted | .failed _ => []

/-- The stream has ended: there is nothing more to read, or a read gives no bytes. -/
def StreamEnd (pending : List Delivery) : Prop :=
  pending = [] ∨ ∃ more, pending = .bytes [] :: more

/-- The connection sends `bytes` in some chunks, with some interruptions, and ends. -/
def Incoming.Sends (i : Incoming) (bytes : List UInt8) : Prop :=
  ∃ deliveries ending, i.pending = deliveries ++ ending ∧ (∀ d ∈ deliveries, d.GoesOn) ∧
    StreamEnd ending ∧ i.buffer ++ deliveries.flatMap Delivery.carried = bytes

/-- What is received is what passing over all the bytes at once finds. -/
def Reception.Follows (r : Reception) (s : Scan) : Prop :=
  r.flushed = s.flushed ∧
    match s.rest with
    | some rest => r.payload = .ok (keptText s.kept) ∧ r.incoming.Sends rest
    | none => r.payload = .error .connectionClosed

theorem follows_streamEnd {pending : List Delivery} (h : StreamEnd pending) (kept : List UInt8) :
    (receiveFrom kept pending).Follows ⟨[], kept, none⟩ := by
  rcases h with rfl | ⟨more, rfl⟩
  · exact ⟨rfl, rfl⟩
  · exact ⟨rfl, rfl⟩

/-- A chunk before the rest of the stream, whether it was read just now or is still buffered. -/
theorem follows_chunk {deliveries ending : List Delivery} (hend : StreamEnd ending)
    (hgo : ∀ d ∈ deliveries, d.GoesOn)
    (hrest : ∀ kept, (receiveFrom kept (deliveries ++ ending)).Follows
      (scan kept (deliveries.flatMap Delivery.carried)))
    (kept chunk : List UInt8) :
    Reception.Follows
      (match (scan kept chunk).rest with
        | some rest =>
          ⟨(scan kept chunk).flushed, .ok (keptText (scan kept chunk).kept),
            ⟨rest, deliveries ++ ending⟩⟩
        | none =>
          (receiveFrom (scan kept chunk).kept (deliveries ++ ending)).after
            (scan kept chunk).flushed)
      (scan kept (chunk ++ deliveries.flatMap Delivery.carried)) := by
  rw [scan_append]
  cases (scan kept chunk).rest with
  | some rest => exact ⟨rfl, rfl, deliveries, ending, rfl, hgo, hend, rfl⟩
  | none =>
    obtain ⟨hflushed, hpayload⟩ := hrest (scan kept chunk).kept
    refine ⟨?_, hpayload⟩
    simp only [Reception.after, hflushed]

theorem follows_receiveFrom {deliveries ending : List Delivery} (hend : StreamEnd ending)
    (hgo : ∀ d ∈ deliveries, d.GoesOn) (kept : List UInt8) :
    (receiveFrom kept (deliveries ++ ending)).Follows
      (scan kept (deliveries.flatMap Delivery.carried)) := by
  induction deliveries generalizing kept with
  | nil => exact follows_streamEnd hend kept
  | cons d deliveries ih =>
    have hrest := ih fun e he => hgo e (by simp [he])
    have hd : d.GoesOn := hgo d (by simp)
    cases d with
    | failed reason => exact absurd hd id
    | interrupted => exact hrest kept
    | bytes chunk =>
      obtain ⟨b, tail, rfl⟩ := List.exists_cons_of_ne_nil hd
      exact follows_chunk hend (fun e he => hgo e (by simp [he])) hrest kept (b :: tail)

theorem Incoming.Sends.follows {i : Incoming} {bytes : List UInt8} (h : i.Sends bytes) :
    i.receive.Follows (scan [] bytes) := by
  obtain ⟨buffer, pending⟩ := i
  obtain ⟨deliveries, ending, rfl, hgo, hend, rfl⟩ := h
  exact follows_chunk hend hgo (follows_receiveFrom hend hgo) [] buffer

/-! ## Successive responses -/

/-- What `n` calls one after the other hand over and return. -/
def Incoming.receptions : Nat → Incoming → List (List String × Except Failure String)
  | 0, _ => []
  | n + 1, i => (i.receive.flushed, i.receive.payload) :: receptions n i.receive.incoming

theorem keptText_reverse (bytes : List UInt8) :
    keptText bytes.reverse = Utf8.decodeLossy bytes := by
  rw [keptText, List.reverse_reverse]

/-- However a byte string is cut into chunks, and however often reading it is interrupted, calls
one after the other give a response for every terminated segment, and then the end of the
connection. -/
theorem receptions_of_sends {i : Incoming} {bytes : List UInt8} (h : i.Sends bytes) :
    i.receptions (bytes.splitOn terminator).length = receptionsOf bytes := by
  induction hn : bytes.length using Nat.strongRecOn generalizing i bytes with
  | ind n ih =>
    have hfollows := h.follows
    by_cases hmem : terminator ∈ bytes
    · -- the first call consumes a segment with its terminator, and the rest is shorter
      obtain ⟨segment, rest, rfl, hsegment⟩ := List.eq_append_cons_of_mem hmem
      obtain ⟨hflushed, hpayload, hsends⟩ := (scan_terminated hsegment rest) ▸ hfollows
      have hlater := ih rest.length (by simp [← hn]; omega) hsends rfl
      rw [List.splitOn_append_cons_self_of_not_mem hsegment, List.length_cons,
        Incoming.receptions, hlater, hflushed, hpayload, keptText_reverse,
        receptionsOf_append_terminator hsegment]
    · rw [scan_of_not_mem (by simp) hmem] at hfollows
      have hflushed : i.receive.flushed = flushesOf bytes := hfollows.1
      have hpayload : i.receive.payload = .error .connectionClosed := hfollows.2
      rw [List.splitOn_eq_singleton hmem, receptionsOf_of_not_mem hmem, List.length_singleton,
        Incoming.receptions, hflushed, hpayload, Incoming.receptions]

/-- A character cut in two, a mark and a terminator at the ends of chunks, two responses in one
chunk, and printed text that no terminator follows. -/
theorem receptions_of_sends_cut :
    let deliveries : List Delivery :=
      [.bytes [0x61, 0xce], .interrupted, .bytes [0xbb, 0x01], .interrupted, .interrupted,
        .bytes [0x62, 0x00, 0x63, 0x00, 0x64], .bytes [0x01, 0x65]]
    Incoming.receptions 3 ⟨[], deliveries⟩ =
      [(["aλ"], .ok "b"), ([], .ok "c"), (["d"], .error .connectionClosed)] := by
  intro deliveries
  have hsends : Incoming.Sends ⟨[], deliveries⟩ (deliveries.flatMap Delivery.carried) := by
    refine ⟨deliveries, [], (List.append_nil _).symm, ?_, .inl rfl, rfl⟩
    simp [deliveries, Delivery.GoesOn]
  have hcalls := receptions_of_sends hsends
  have hcount : ((deliveries.flatMap Delivery.carried).splitOn terminator).length = 3 := by decide
  rw [hcount] at hcalls
  rw [hcalls]
  rfl

end LiveLisp.Backend
