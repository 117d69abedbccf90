import LetFrontEnd.Proofs.LongestMatch
import LetFrontEnd.Proofs.Pulling
import LetFrontEnd.Scanner
import Mathlib.Logic.Function.Iterate

/- The registers of a scanner stand for the place of a cursor. Reads keep them consistent, and a loop
   on the byte under the scanner reads as far as the class of that byte goes. -/
namespace LetFrontEnd

namespace Text

theorem lossyChars_ascii {bs : List UInt8} (ascii : ∀ b ∈ bs, b < 0x80) :
    lossyChars bs = bs.map Char.ofUInt8 := by
  induction bs with
  | nil => rw [lossyChars, List.map_nil]
  | cons b rest ih =>
    rw [lossyChars, if_pos (ascii b (by simp)), ih fun x member => ascii x (by simp [member]),
      List.map_cons]

theorem lossy_ascii {bs : List UInt8} (ascii : ∀ b ∈ bs, b < 0x80) : lossy bs = Byte.text bs := by
  rw [lossy, lossyChars_ascii ascii, Byte.text]

theorem utf8EncodeChar_ascii {b : UInt8} (ascii : b < 0x80) :
    String.utf8EncodeChar (Char.ofUInt8 b) = [b] := by
  have bound : b.toNat < 0x80 := UInt8.lt_iff_toNat_lt.mp ascii
  have code : (Char.ofUInt8 b).val.toNat = b.toNat := Byte.ofUInt8_toNat b
  simp only [String.utf8EncodeChar, code, UInt8.ofNat_toNat, if_pos (show b.toNat ≤ 127 by omega)]

theorem utf8_text_ascii {bs : List UInt8} (ascii : ∀ b ∈ bs, b < 0x80) :
    utf8 (Byte.text bs) = bs := by
  rw [utf8, Byte.text_toList]
  induction bs with
  | nil => rfl
  | cons b rest ih =>
    rw [List.map_cons, List.flatMap_cons, utf8EncodeChar_ascii (ascii b (by simp)),
      ih fun x member => ascii x (by simp [member])]
    rfl

end Text

namespace Cursor

theorem pass_position (n : Nat) (c : Cursor) :
    (c.pass n).position = c.position + min n c.after.length := by
  have before := c.input_length
  have behind := (c.pass n).input_length
  rw [pass_input, pass_after, List.length_drop] at behind
  omega

theorem pass_pass (m n : Nat) (c : Cursor) : (c.pass m).pass n = c.pass (m + n) := by
  fun_induction pass m c with
  | case1 c => rw [Nat.zero_add]
  | case2 m before =>
    rw [Nat.succ_add, pass]
    cases n <;> rfl
  | case3 m before b after ih => rw [ih, Nat.succ_add, pass]

end Cursor

namespace Scanner

def ofCursor (c : Cursor) : Scanner := ⟨c.input, c.position, c.nextPosition, c.byte?⟩

/-- How the registers hang together over an input. -/
structure Sound (bs : List UInt8) (s : Scanner) : Prop where
  input : s.input = bs
  position : s.position ≤ bs.length
  readPosition : s.readPosition = min (s.position + 1) bs.length
  byte : s.byte = bs[s.position]?
  ended : s.byte = none ↔ s.position = bs.length

theorem ofCursor_sound (c : Cursor) : Sound c.input (ofCursor c) := by
  have length := c.input_length
  have byte : c.byte? = c.input[c.position]? := by
    rw [Cursor.byte?, c.after_eq_drop, List.head?_drop]
  refine ⟨rfl, ?_, rfl, byte, ?_⟩
  · change c.position ≤ c.input.length
    omega
  · change c.byte? = none ↔ c.position = c.input.length
    rw [byte, List.getElem?_eq_none_iff]
    omega

/-- The registers hang together just at the places of cursors over the input. -/
theorem sound_ofCursor {bs : List UInt8} {s : Scanner} (sound : Sound bs s) :
    ∃ c : Cursor, c.input = bs ∧ s = ofCursor c := by
  obtain ⟨input, position, readPosition, byte⟩ := s
  have place : position ≤ bs.length := sound.position
  refine ⟨⟨(bs.take position).reverse, bs.drop position⟩, ?_, ?_⟩
  · simp [Cursor.input]
  · have whole : Cursor.input ⟨(bs.take position).reverse, bs.drop position⟩ = bs := by
      simp [Cursor.input]
    have here : Cursor.position ⟨(bs.take position).reverse, bs.drop position⟩ = position := by
      simp [Cursor.position, place]
    have under : Cursor.byte? ⟨(bs.take position).reverse, bs.drop position⟩ = bs[position]? := by
      simp [Cursor.byte?]
    rw [ofCursor, Cursor.nextPosition, whole, here, under]
    exact (Scanner.mk.injEq ..).mpr ⟨sound.input, rfl, sound.readPosition, sound.byte⟩

theorem sound_ext {bs : List UInt8} {s t : Scanner} (left : Sound bs s) (right : Sound bs t)
    (place : s.position = t.position) : s = t := by
  obtain ⟨input, position, readPosition, byte⟩ := s
  obtain rfl : position = t.position := place
  obtain rfl : input = t.input := left.input.trans right.input.symm
  obtain rfl : readPosition = t.readPosition := left.readPosition.trans right.readPosition.symm
  obtain rfl : byte = t.byte := left.byte.trans right.byte.symm
  rfl

theorem readByte_sound {bs : List UInt8} {s : Scanner} (sound : Sound bs s) :
    Sound bs s.readByte := by
  obtain ⟨rfl, place, next, -, -⟩ := sound
  refine ⟨rfl, ?_, ?_, rfl, ?_⟩
  · simp only [readByte]
    omega
  · simp only [readByte]
    split <;> omega
  · simp only [readByte, List.getElem?_eq_none_iff]
    omega

theorem ofBytes_eq (bs : List UInt8) : ofBytes bs = ofCursor (.ofBytes bs) := by
  cases bs <;> rfl

theorem readByte_ofCursor (c : Cursor) : (ofCursor c).readByte = ofCursor (c.pass 1) := by
  have moved := ofCursor_sound (c.pass 1)
  rw [Cursor.pass_input] at moved
  refine sound_ext (readByte_sound (ofCursor_sound c)) moved ?_
  have length := c.input_length
  change min (c.position + 1) c.input.length = (c.pass 1).position
  rw [Cursor.pass_position]
  omega

theorem iterate_ofCursor (n : Nat) (c : Cursor) :
    readByte^[n] (ofCursor c) = ofCursor (c.pass n) := by
  induction n generalizing c with
  | zero => rfl
  | succ n ih => rw [Function.iterate_succ_apply, readByte_ofCursor, ih, Cursor.pass_pass,
      Nat.add_comm]

/-- Reading on while `p` holds is over after `n` reads. -/
structure Halts (p : UInt8 → Bool) (s : Scanner) (n : Nat) : Prop where
  going : ∀ m < n, (readByte^[m] s).byte.any p = true
  stopped : (readByte^[n] s).byte.any p = false

theorem readWhile_of_halts {p : UInt8 → Bool} {s : Scanner} {n : Nat} (halts : Halts p s n) :
    s.readWhile p = readByte^[n] s := by
  induction n generalizing s with
  | zero =>
    have stopped := halts.stopped
    rw [Function.iterate_zero_apply] at stopped
    rw [readWhile, dif_neg (by simp [stopped]), Function.iterate_zero_apply]
  | succ n ih =>
    have going : s.byte.any p = true := halts.going 0 (by omega)
    rw [readWhile, dif_pos going, Function.iterate_succ_apply]
    refine ih ⟨?_, halts.stopped⟩
    intro m below
    exact halts.going (m + 1) (by omega)

theorem halts_ofCursor (p : UInt8 → Bool) (c : Cursor) :
    Halts p (ofCursor c) (c.after.takeWhile p).length := by
  have under (m : Nat) : (readByte^[m] (ofCursor c)).byte = (c.after.drop m).head? := by
    rw [iterate_ofCursor]
    exact congrArg List.head? (c.pass_after m)
  refine ⟨?_, ?_⟩
  · intro m below
    have inside := (List.takeWhile_prefix (l := c.after) p).length_le
    have holds : p (c.after.takeWhile p)[m] = true :=
      List.all_eq_true.mp List.all_takeWhile _ (List.getElem_mem below)
    rw [(List.takeWhile_prefix p).getElem below] at holds
    simpa [under, List.head?_drop, List.getElem?_eq_getElem (Nat.lt_of_lt_of_le below inside)]
      using holds
  · have rest : c.after.drop (c.after.takeWhile p).length = c.after.dropWhile p := by
      calc c.after.drop (c.after.takeWhile p).length
          = (c.after.takeWhile p ++ c.after.dropWhile p).drop (c.after.takeWhile p).length := by
            rw [List.takeWhile_append_dropWhile]
        _ = c.after.dropWhile p := List.drop_left
    have behind := List.head?_dropWhile_not p c.after
    rw [under, rest]
    cases first : (c.after.dropWhile p).head? with
    | none => rfl
    | some b => simpa [first] using behind

theorem readWhile_ofCursor (p : UInt8 → Bool) (c : Cursor) :
    (ofCursor c).readWhile p = ofCursor (c.pass (c.after.takeWhile p).length) := by
  rw [readWhile_of_halts (halts_ofCursor p c), iterate_ofCursor]

end Scanner

end LetFrontEnd
