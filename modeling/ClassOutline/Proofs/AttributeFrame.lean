import ClassOutline.Proofs.AttributeCalls

/-!
An attribute is a frame and a payload.

The frame is a name, looked up at an index, and a length; what the payload is depends on
them. Of the frame one can say from the bytes alone what it is: it is read exactly where its
index and its length are written (`Frame.decode_eq_done`, `Frame.exists_decode_eq_done`).

A frame takes six bytes, and these are read first. So every attribute takes up bytes
(`Attribute.advances_decode`), and the attributes inside one begin behind its frame
(`Attribute.calls_lt`), which is what an induction over nested attributes needs.
-/

set_option autoImplicit false

namespace ClassOutline

open Decoder

/-! ## Frames -/

namespace Frame

variable {r : Resolver}

/-- A frame that was read was written there. -/
theorem decode_eq_done {e : Ending} {c next : Cursor} {frame : Frame}
    (run : decode r e c = .done frame next) :
    ∃ index, r .utf8 index = .ok frame.name ∧
      c.unread = bytes16 index ++ (bytes32 frame.length ++ next.unread) := by
  obtain ⟨index, c₁, readIndex, run⟩ := bind_eq_done run
  obtain ⟨name, c₂, asked, run⟩ := bind_eq_done run
  obtain ⟨length, c₃, readLength, run⟩ := bind_eq_done run
  obtain ⟨_, c₄, noted, made⟩ := bind_eq_done run
  obtain ⟨answer, unread⟩ := r.ask_eq_done asked
  cases noted
  cases made
  exact ⟨index, answer, by rw [u16_eq_done readIndex, ← unread, u32_eq_done readLength]⟩

/-- A frame that is written and has a name is read. -/
theorem reads_decode {index : UInt16} (frame : Frame) (answer : r .utf8 index = .ok frame.name) :
    Reads (decode r) (bytes16 index ++ bytes32 frame.length) frame :=
  (Reads.u16 index).bind (.after (.ask answer) ((Reads.u32 frame.length).before
    (.after (.note _) (.pure frame))))

/-- A frame that is written there is read. -/
theorem exists_decode_eq_done {c : Cursor} {index : UInt16} {name : String} {length : UInt32}
    {rest : List UInt8} (answer : r .utf8 index = .ok name)
    (unread : c.unread = bytes16 index ++ (bytes32 length ++ rest)) (e : Ending) :
    ∃ journal, decode r e c = .done ⟨name, length⟩ ⟨rest, journal⟩ := by
  obtain ⟨journal, run⟩ := reads_decode ⟨name, length⟩ answer e rest c.journal
  rw [List.append_assoc, ← unread] at run
  exact ⟨journal, run⟩

end Frame

/-! ## Progress -/

namespace Attribute

variable {settings : Settings} {r : Resolver}

/-- Every attribute takes up at least one byte. -/
theorem advances_decode (settings : Settings) : AttributeReader.Advances (decode settings) := by
  intro r e c x next run
  -- The bound is used up by one level at the most, and then the frame has been read.
  change decodeWithin settings r c.unread.length e c = _ at run
  cases depth : c.unread.length with
  | zero =>
      rw [depth] at run
      cases run
  | succ n =>
      rw [depth, decodeWithin] at run
      have payload : ∀ frame,
          Forward (decodePayload settings r (decodeWithin settings r n) frame) := fun frame =>
        ((composed_decodePayload frame).sequential r (sequential_decodeWithin n)).forward
      have taken := (Frame.advances_decode r).bind payload e c x next run
      omega

/-- The attributes inside one begin behind its frame. -/
theorem calls_lt {e : Ending} {c stop : Cursor} {r' : Resolver}
    (calls : Calls (fun reader => decodeWith settings r (reader r)) (decode settings) e c r' stop) :
    stop.unread.length < c.unread.length := by
  have frames : Context fun _ => Frame.decode r :=
    (Frame.composed_decode : Composed (fun _ => False) _).context r
  rcases frames.calls_of_calls_bind calls with calls | ⟨frame, mid, framed, calls⟩
  · exact absurd calls Context.not_calls_const
  · have front := Frame.advances_decode r e c frame mid framed
    have payload : Context fun reader => decodePayload settings r (reader r) frame :=
      (composed_decodePayload frame).context r
    have back := payload.calls_le (advances_decode settings) calls
    omega

end Attribute

end ClassOutline
