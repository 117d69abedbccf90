import LetFrontEnd.Proofs.Registers

/- Scanning with registers. Each scan follows the cursor: it gives the token that the cursor pulls
   and the registers of the place that the cursor comes to. From there follow the range of every
   cut, the progress of every scan, and an end to all loops. -/
namespace LetFrontEnd.Scanner
open Byte

/-- The literal of a scan was cut from the input between `start` and the place it stopped at. The cut
holds ASCII only, so that decoding leaves its bytes as they are. -/
structure Cut (bs : List UInt8) (scan : Scan) (start stop : Nat) : Prop where
  ordered : start ≤ stop
  within : stop ≤ bs.length
  place : stop = scan.scanner.position
  ascii : ∀ b ∈ (bs.take stop).drop start, b < 0x80
  literal : scan.token.literal = Text.lossy ((bs.take stop).drop start)
  faithful : Text.utf8 (Text.lossy ((bs.take stop).drop start)) = (bs.take stop).drop start

/-- The scan gives what the cursor has pulled, and every cut it makes is a proper one. -/
structure Follows (bs : List UInt8) (pulled : Token × Cursor) (scan : Scan) : Prop where
  token : scan.token = pulled.1
  scanner : scan.scanner = ofCursor pulled.2
  cut : ∀ start stop, scan.cut = some (start, stop) → Cut bs scan start stop

theorem cutTo_follows {c : Cursor} {bytes : List UInt8} (kindOf : String → TokenKind)
    (front : bytes <+: c.after) (ascii : ∀ b ∈ bytes, b < 0x80) :
    ∃ scan, (ofCursor c).cutTo (ofCursor (c.pass bytes.length)) kindOf = some scan ∧
      Follows c.input (⟨kindOf (text bytes), text bytes⟩, c.pass bytes.length) scan := by
  have whole := c.input_length
  have inside := front.length_le
  have place : (c.pass bytes.length).position = c.position + bytes.length := by
    rw [Cursor.pass_position, Nat.min_eq_left inside]
  have between : (c.input.take (c.position + bytes.length)).drop c.position = bytes := by
    rw [List.drop_take, ← c.after_eq_drop, Nat.add_sub_cancel_left]
    exact (List.prefix_iff_eq_take.mp front).symm
  have sliced : (ofCursor (c.pass bytes.length)).slice? c.position (c.position + bytes.length) =
      some bytes := by
    simp only [slice?, ofCursor, Cursor.pass_input, between]
    exact if_pos ⟨by omega, by omega⟩
  have decoded := Text.lossy_ascii ascii
  refine ⟨⟨⟨kindOf (text bytes), text bytes⟩, some (c.position, c.position + bytes.length),
    ofCursor (c.pass bytes.length)⟩, ?_, rfl, rfl, ?_⟩
  · have start : (ofCursor c).position = c.position := rfl
    have stop : (ofCursor (c.pass bytes.length)).position = c.position + bytes.length := place
    rw [cutTo, start, stop, sliced, Option.map_some, decoded]
  · intro start stop cut
    obtain ⟨rfl, rfl⟩ := Prod.mk.inj (Option.some.inj cut)
    refine ⟨by omega, by omega, place.symm, ?_, ?_, ?_⟩
    · rw [between]
      exact ascii
    · rw [between, decoded]
    · rw [between, decoded, Text.utf8_text_ascii ascii]

theorem ascii_of_letter {b : UInt8} (letter : isLetter b = true) : b < 0x80 := by
  rw [letter_iff_toNat] at letter
  apply UInt8.lt_iff_toNat_lt.mpr
  change b.toNat < 128
  omega

theorem ascii_of_digit {b : UInt8} (digit : isDigit b = true) : b < 0x80 := by
  rw [digit_iff_toNat] at digit
  apply UInt8.lt_iff_toNat_lt.mpr
  change b.toNat < 128
  omega

theorem ascii_of_symbol {b : UInt8} {k : TokenKind} (found : TokenKind.ofSymbol? b = some k) :
    b < 0x80 := by
  have table : ∀ entry ∈ TokenKind.symbols, entry.1.toNat < 0x80 := by decide
  have code := table _ (TokenKind.mem_of_lookup found)
  rw [ofUInt8_toNat] at code
  exact UInt8.lt_iff_toNat_lt.mpr code

/-- No symbol is a letter or a digit, so the order in which they are told apart does not matter. -/
theorem class_of_symbol {b : UInt8} {k : TokenKind} (found : TokenKind.ofSymbol? b = some k) :
    isLetter b = false ∧ isDigit b = false := by
  have table : ∀ entry ∈ TokenKind.symbols,
      ¬ (entry.1.isAlpha = true ∨ entry.1 = '_') ∧ ¬ entry.1.isDigit = true := by decide
  have plain := table _ (TokenKind.mem_of_lookup found)
  rw [← Bool.not_eq_true, ← Bool.not_eq_true, isLetter_iff, isDigit_iff]
  exact plain

section
variable {c : Cursor} {b : UInt8} {rest : List UInt8}

theorem ofCursor_byte (shape : c.after = b :: rest) : (ofCursor c).byte = some b := by
  change c.after.head? = some b
  rw [shape]
  rfl

theorem ofCursor_peek (shape : c.after = b :: rest) : (ofCursor c).peek = rest.head? := by
  have read : (ofCursor c).peek = (ofCursor (c.pass 1)).byte := by
    rw [← readByte_ofCursor]
    rfl
  rw [read]
  change (c.pass 1).after.head? = rest.head?
  rw [Cursor.pass_after, shape]
  rfl

theorem readWhile_run (p : UInt8 → Bool) (shape : c.after = b :: rest) :
    (ofCursor c).readWhile p = ofCursor (c.pass ((b :: rest).takeWhile p).length) := by
  rw [readWhile_ofCursor, shape]

theorem read_of_byte (shape : c.after = b :: rest) :
    c.read = ((Lexeme.first b rest).token, c.pass (Lexeme.first b rest).bytes.length) := by
  rw [Cursor.read, shape]

theorem scanHere_word (shape : c.after = b :: rest) (stray : TokenKind.ofSymbol? b = none)
    (letter : isLetter b = true) :
    ∃ scan, (ofCursor c).scanHere = some scan ∧ Follows c.input c.read scan := by
  have front : (b :: rest).takeWhile isLetter <+: c.after := shape ▸ List.takeWhile_prefix _
  have letters : ∀ x ∈ (b :: rest).takeWhile isLetter, x < 0x80 := fun x member =>
    ascii_of_letter (List.all_eq_true.mp List.all_takeWhile x member)
  rw [read_of_byte shape, Lexeme.first_of_letter rest letter, scanHere, ofCursor_byte shape]
  simp only [stray, letter, if_true, readWhile_run isLetter shape]
  exact cutTo_follows TokenKind.ofWord front letters

theorem scanHere_number (shape : c.after = b :: rest) (stray : TokenKind.ofSymbol? b = none)
    (digit : isDigit b = true) :
    ∃ scan, (ofCursor c).scanHere = some scan ∧ Follows c.input c.read scan := by
  have front : (b :: rest).takeWhile isDigit <+: c.after := shape ▸ List.takeWhile_prefix _
  have digits : ∀ x ∈ (b :: rest).takeWhile isDigit, x < 0x80 := fun x member =>
    ascii_of_digit (List.all_eq_true.mp List.all_takeWhile x member)
  rw [read_of_byte shape, Lexeme.first_of_digit rest digit, scanHere, ofCursor_byte shape]
  simp only [stray, isLetter_of_isDigit digit, Bool.false_eq_true, if_false, digit, if_true,
    readWhile_run isDigit shape]
  exact cutTo_follows (fun _ => TokenKind.int) front digits

theorem scanHere_stray (shape : c.after = b :: rest) (stray : TokenKind.ofSymbol? b = none)
    (unlettered : isLetter b = false) (undigit : isDigit b = false) :
    ∃ scan, (ofCursor c).scanHere = some scan ∧ Follows c.input c.read scan := by
  have lexeme : Lexeme.symbol b rest = ⟨.illegal, [b]⟩ := by simp [Lexeme.symbol, stray]
  rw [read_of_byte shape, Lexeme.first_of_other rest unlettered undigit, lexeme, scanHere,
    ofCursor_byte shape]
  simp only [stray, unlettered, undigit, Bool.false_eq_true, if_false]
  exact ⟨_, rfl, rfl, readByte_ofCursor c, fun _ _ cut => by cases cut⟩

theorem symbol_joined {single joined : TokenKind} (tail : List UInt8)
    (found : TokenKind.ofSymbol? b = some single) (pairs : single.withEquals? = some joined) :
    Lexeme.symbol b (0x3D :: tail) = ⟨joined, [b, 0x3D]⟩ := by
  simp [Lexeme.symbol, found, pairs]

theorem symbol_alone {single : TokenKind} (found : TokenKind.ofSymbol? b = some single)
    (apart : single.withEquals? = none ∨ rest.head? ≠ some 0x3D) :
    Lexeme.symbol b rest = ⟨single, [b]⟩ := by
  simp only [Lexeme.symbol, found]
  split
  case h_1 paired tail pairs =>
    rcases apart with lone | unequal
    · cases lone.symm.trans pairs
    · exact absurd rfl unequal
  case h_2 => rfl

theorem scanHere_symbol {single : TokenKind} (shape : c.after = b :: rest)
    (found : TokenKind.ofSymbol? b = some single) :
    ∃ scan, (ofCursor c).scanHere = some scan ∧ Follows c.input c.read scan := by
  obtain ⟨unlettered, undigit⟩ := class_of_symbol found
  have ascii := ascii_of_symbol found
  have one : [b] <+: c.after := shape ▸ ⟨rest, rfl⟩
  have alone := cutTo_follows (fun _ => single) one (by simpa using ascii)
  rw [read_of_byte shape, Lexeme.first_of_other rest unlettered undigit, scanHere,
    ofCursor_byte shape]
  simp only [found]
  cases pairs : single.withEquals? with
  | none =>
    rw [symbol_alone found (Or.inl pairs)]
    simp only [singleOrPaired, readByte_ofCursor]
    exact alone
  | some joined =>
    simp only [singleOrPaired, ofCursor_peek shape, readByte_ofCursor, Cursor.pass_pass]
    by_cases equals : rest.head? = some 0x3D
    · obtain ⟨tail, rfl⟩ := List.head?_eq_some_iff.mp equals
      have two : [b, 0x3D] <+: c.after := shape ▸ ⟨tail, rfl⟩
      rw [if_pos equals, symbol_joined tail found pairs]
      exact cutTo_follows (fun _ => joined) two (by simpa using ascii)
    · rw [if_neg equals, symbol_alone found (Or.inr equals)]
      exact alone

theorem scanHere_follows (c : Cursor) :
    ∃ scan, (ofCursor c).scanHere = some scan ∧ Follows c.input c.read scan := by
  cases shape : c.after with
  | nil =>
    have byte : (ofCursor c).byte = none := by
      change c.after.head? = none
      rw [shape]
      rfl
    rw [scanHere, byte, Cursor.read, shape]
    exact ⟨_, rfl, rfl, rfl, fun _ _ cut => by cases cut⟩
  | cons b rest =>
    cases found : TokenKind.ofSymbol? b with
    | some single => exact scanHere_symbol shape found
    | none =>
      rcases class_cases b with letter | digit | ⟨unlettered, undigit⟩
      · exact scanHere_word shape found letter
      · exact scanHere_number shape found digit
      · exact scanHere_stray shape found unlettered undigit

end

theorem scan_follows (c : Cursor) :
    ∃ scan, (ofCursor c).scan = some scan ∧ Follows c.input c.next scan := by
  obtain ⟨found, scanned, follows⟩ := scanHere_follows c.skipBlanks
  rw [Cursor.skipBlanks, Cursor.pass_input] at follows
  refine ⟨found, ?_, follows⟩
  rw [scan, readWhile_ofCursor]
  exact scanned

theorem run_pulls (n : Nat) (c : Cursor) :
    ∃ ts, (ofCursor c).run n = some (ts, ofCursor (c.pulls n)) := by
  induction n generalizing c with
  | zero => exact ⟨[], rfl⟩
  | succ n ih =>
    obtain ⟨first, scanned, follows⟩ := scan_follows c
    obtain ⟨ts, rest⟩ := ih c.next.2
    refine ⟨first.token :: ts, ?_⟩
    rw [run, scanned, Option.bind_some, follows.scanner, rest, Option.map_some, Cursor.pulls]

theorem run_drain (c : Cursor) :
    (ofCursor c).run (c.drain.1.length + 1) = some (c.drain.1 ++ [Token.eof], ofCursor c.drain.2) := by
  induction c using Cursor.drainThroughEnd.induct with
  | case1 c last =>
    obtain ⟨first, scanned, follows⟩ := scan_follows c
    rw [run, scanned, Option.bind_some, follows.scanner, follows.token, Cursor.drain_of_eof last,
      (Cursor.next_eof last).1]
    rfl
  | case2 c more _ _ _ ih =>
    obtain ⟨first, scanned, follows⟩ := scan_follows c
    rw [run, scanned, Option.bind_some, follows.scanner, follows.token, Cursor.drain_of_token more,
      List.length_cons, ih]
    rfl

theorem drain_length (c : Cursor) : c.drain.1.length ≤ c.after.length := by
  induction c using Cursor.drainThroughEnd.induct with
  | case1 c last => simp [Cursor.drain_of_eof last]
  | case2 c more _ _ _ ih =>
    have shorter := Cursor.next_length_lt more
    rw [Cursor.drain_of_token more, List.length_cons]
    omega

/-- A token moves the scanner over all of its literal at least, and the end over all of the input. -/
structure Advances (bs : List UInt8) (s : Scanner) (scan : Scan) : Prop where
  token : scan.token.kind ≠ .eof →
    1 ≤ scan.token.literal.length ∧ s.position + scan.token.literal.length ≤ scan.scanner.position
  ended : scan.token.kind = .eof →
    scan.scanner.position = bs.length ∧ scan.scanner.readPosition = bs.length

theorem next_position_le {c : Cursor} (more : c.next.1.kind ≠ .eof) :
    1 ≤ c.next.1.literal.length ∧ c.position + c.next.1.literal.length ≤ c.next.2.position := by
  cases shape : c.after.dropWhile isBlank with
  | nil => exact absurd (congrArg Token.kind (Cursor.next_of_blank shape).1) more
  | cons b rest =>
    have best : Longest (Lexeme.first b rest).bytes (c.after.dropWhile isBlank) :=
      shape ▸ Lexeme.first_longest b rest
    have place := Cursor.next_position_of_longest best
    have length : c.next.1.literal.length = (Lexeme.first b rest).bytes.length := by
      rw [(Cursor.next_of_byte shape).1]
      exact text_length _
    have some := Lexeme.first_bytes_positive b rest
    have skipped := (List.dropWhile_suffix (l := c.after) isBlank).length_le
    have whole := c.input_length
    omega

theorem follows_advances {c : Cursor} {scan : Scan} (follows : Follows c.input c.next scan) :
    Advances c.input (ofCursor c) scan := by
  obtain ⟨token, scanner, -⟩ := follows
  refine ⟨?_, ?_⟩
  · rw [token, scanner]
    exact next_position_le
  · rw [token, scanner]
    intro last
    have whole := c.next.2.input_length
    rw [(Cursor.next_eof last).2, Cursor.next_input] at whole
    have sound := ofCursor_sound c.next.2
    rw [Cursor.next_input] at sound
    have place : (ofCursor c.next.2).position = c.input.length := whole.symm
    have next := sound.readPosition
    exact ⟨place, by omega⟩

/-- After pulls of any kind the registers are those of so many scans, and they hang together. The
next scan has an answer; its cut is in range and of ASCII, a token moves the scanner on by its
literal or more, and the end moves it to the end. So the scans up to the end are no more than the
bytes left, and one. A loop over sound registers halts within the input, and all that it passes
through is sound. -/
theorem registers_sound (bs : List UInt8) (ways : List Cursor.Pull) :
    let c := (Cursor.ofBytes bs).pulled ways
    let s := ofCursor c
    (∃ n ts, (ofBytes bs).run n = some (ts, s)) ∧ Sound bs s ∧
    (∃ scan, s.scan = some scan ∧ Follows bs c.next scan ∧ Advances bs s scan) ∧
    c.drain.1.length ≤ bs.length - s.position ∧ (∀ t ∈ c.drain.1, t.kind ≠ .eof) ∧
    s.run (c.drain.1.length + 1) = some (c.drain.1 ++ [Token.eof], ofCursor c.drain.2) ∧
    ∀ r, Sound bs r → Sound bs r.readByte ∧
      ∀ p, ∃ n ≤ bs.length - r.position, Halts p r n ∧ r.readWhile p = readByte^[n] r := by
  intro c s
  obtain ⟨n, reached⟩ := (Cursor.ofBytes bs).pulled_eq_pulls ways
  have input : c.input = bs := by
    change ((Cursor.ofBytes bs).pulled ways).input = bs
    rw [reached, Cursor.pulls_input, Cursor.ofBytes_input]
  refine ⟨?_, ?_, ?_, ?_, ?_, run_drain c, ?_⟩
  · obtain ⟨ts, scanned⟩ := run_pulls n (.ofBytes bs)
    refine ⟨n, ts, ?_⟩
    rw [ofBytes_eq, scanned, ← reached]
  · exact input ▸ ofCursor_sound c
  · obtain ⟨scan, scanned, follows⟩ := scan_follows c
    have advances := follows_advances follows
    rw [input] at follows advances
    exact ⟨scan, scanned, follows, advances⟩
  · have whole := c.input_length
    have left := drain_length c
    change c.drain.1.length ≤ bs.length - c.position
    rw [input] at whole
    omega
  · intro t member
    exact Cursor.drain_ne_eof member
  · intro r sound
    refine ⟨readByte_sound sound, ?_⟩
    intro p
    -- sound registers are those of a cursor, where the loop reads over a stretch of bytes
    obtain ⟨d, rfl, rfl⟩ := sound_ofCursor sound
    have halts := halts_ofCursor p d
    refine ⟨_, ?_, halts, readWhile_of_halts halts⟩
    have whole := d.input_length
    have inside := (List.takeWhile_prefix (l := d.after) p).length_le
    change (d.after.takeWhile p).length ≤ d.input.length - d.position
    omega

end LetFrontEnd.Scanner
