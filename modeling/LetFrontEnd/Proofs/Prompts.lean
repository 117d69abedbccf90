import LetFrontEnd.Proofs.Wording

/- Prompts can be found in the output itself. Two angle brackets in a row stand nowhere else, so
   a transcript holds the text of the prompt as often as the session has prompted. -/
namespace LetFrontEnd

namespace Session

def prompts : List UInt8 → Nat
  | [] => 0
  | b :: rest => (if promptBytes <+: b :: rest then 1 else 0) + prompts rest

/-- No prompt stands in the bytes or begins there. -/
def Quiet (bs : List UInt8) : Prop := ∀ rest, prompts (bs ++ rest) = prompts rest

theorem promptBytes_eq : promptBytes = [0x3E, 0x3E, 0x20] := by decide

section
variable {b c : UInt8} {bs rest : List UInt8}

theorem prompts_other (other : b ≠ 0x3E) : prompts (b :: rest) = prompts rest := by
  simp [prompts, promptBytes_eq, List.cons_prefix_cons, Ne.symm other]

theorem prompts_lone (other : c ≠ 0x3E) : prompts (0x3E :: c :: rest) = prompts rest := by
  simp [prompts, promptBytes_eq, List.cons_prefix_cons, Ne.symm other]

theorem prompts_prompt (rest : List UInt8) : prompts (promptBytes ++ rest) = 1 + prompts rest := by
  simp [prompts, promptBytes_eq, List.cons_prefix_cons]

theorem quiet_append {cs : List UInt8} (left : Quiet bs) (right : Quiet cs) : Quiet (bs ++ cs) := by
  intro rest
  rw [List.append_assoc, left, right]

theorem quiet_of_no_angle (absent : 0x3E ∉ bs) : Quiet bs := by
  induction bs with
  | nil =>
    intro rest
    rfl
  | cons b bs ih =>
    intro rest
    rw [List.cons_append, prompts_other (List.ne_of_not_mem_cons absent).symm]
    exact ih (List.not_mem_of_not_mem_cons absent) rest

theorem quiet_lone_angle (some : bs ≠ []) (absent : 0x3E ∉ bs) : Quiet (0x3E :: bs) := by
  obtain ⟨c, cs, rfl⟩ := List.exists_cons_of_ne_nil some
  intro rest
  rw [List.cons_append, List.cons_append, prompts_lone (List.ne_of_not_mem_cons absent).symm]
  exact quiet_of_no_angle (List.not_mem_of_not_mem_cons absent) rest

end

end Session

namespace Text

/-- A byte of ASCII stands for its own character and is part of no other. -/
theorem char_of_mem_utf8EncodeChar {b : UInt8} {c : Char} (ascii : b.toNat < 0x80)
    (member : b ∈ String.utf8EncodeChar c) : c = Char.ofUInt8 b := by
  simp only [String.utf8EncodeChar] at member
  repeat' split at member
  all_goals
    simp only [List.mem_cons, List.not_mem_nil, or_false, ← UInt8.toNat_inj,
      UInt8.toNat_ofNat'] at member
  · apply Char.toNat_inj.mp
    have code : c.toNat = c.val.toNat := rfl
    rw [Byte.ofUInt8_toNat]
    omega
  · omega
  · omega
  · omega

theorem char_of_mem_utf8 {b : UInt8} {s : String} (ascii : b.toNat < 0x80)
    (member : b ∈ utf8 s) : Char.ofUInt8 b ∈ s.toList := by
  obtain ⟨c, inside, byte⟩ := List.mem_flatMap.mp member
  exact char_of_mem_utf8EncodeChar ascii byte ▸ inside

theorem utf8_ne_nil {s : String} (some : s ≠ "") : utf8 s ≠ [] := by
  intro none
  apply some
  apply String.toList_injective
  rw [utf8, List.flatMap_eq_nil_iff] at none
  cases chars : s.toList with
  | nil => rfl
  | cons c cs => exact absurd (none c (by simp [chars])) String.utf8EncodeChar_ne_nil

end Text

namespace Session
open Text

theorem quiet_text {s : String} (absent : '>' ∉ s.toList) : Quiet (utf8 s) :=
  quiet_of_no_angle fun member => absent (char_of_mem_utf8 (by decide) member)

/-- An angle bracket that stands alone begins no prompt when another character comes next. -/
theorem quiet_field {front s next : String} (before : Quiet (utf8 front))
    (lone : '>' ∈ s.toList → s = ">") (plain : next ≠ "" ∧ '>' ∉ next.toList) :
    Quiet (utf8 (front ++ (s ++ next))) := by
  rw [utf8_append]
  apply quiet_append before
  by_cases angle : '>' ∈ s.toList
  · rw [lone angle, utf8_append]
    exact quiet_lone_angle (utf8_ne_nil plain.1) fun member =>
      plain.2 (char_of_mem_utf8 (by decide) member)
  · apply quiet_text
    simp [angle, plain.2]

theorem label_lone (k : TokenKind) : '>' ∈ k.label.toList → k.label = ">" := by
  cases k <;> decide

theorem listed_quiet {t : Token} (legible : t.Legible) : Quiet (utf8 (listed t)) := by
  have parts : listed t =
      "\x7bkind: " ++ (t.kind.label ++ ", literal: ") ++ (t.literal ++ "\x7d\n") := by
    simp [listed, Token.display, ← String.toList_inj]
  rw [parts]
  refine quiet_field ?_ legible.lone (by decide)
  refine quiet_field ?_ (label_lone t.kind) (by decide)
  exact quiet_text (by decide)

theorem quote_quiet {s : String} (lone : '>' ∈ s.toList → s = ">") :
    Quiet (utf8 (quote s ++ "\n")) := by
  by_cases angle : '>' ∈ s.toList
  · have parts : quote s ++ "\n" = "\"" ++ (">" ++ "\"\n") := by
      rw [lone angle]
      rfl
    rw [parts]
    exact quiet_field (quiet_text (by decide)) (by decide) (by decide)
  · have absent : '>' ∉ (quote s).toList := by
      intro member
      rcases mem_quote member with spelled | ⟨inside, -⟩
      · exact absurd spelled (by decide)
      · exact angle inside
    apply quiet_text
    simp [absent]

theorem report_quiet {k : TokenKind} {t : Token} (legible : t.Legible) :
    Quiet (utf8 (ParseError.about k t).report) := by
  cases illegal : t.is .illegal with
  | true =>
    have parts : (ParseError.about k t).report =
        "Error: UnrecognisedToken\n-" ++ (">" ++ " unrecognised token: ")
          ++ (quote t.literal ++ "\n") := by
      simp [ParseError.report_of_illegal illegal, ← String.toList_inj]
    rw [parts, utf8_append]
    refine quiet_append ?_ (quote_quiet legible.lone)
    exact quiet_field (quiet_text (by decide)) (by decide) (by decide)
  | false =>
    have parts : (ParseError.about k t).report =
        "Error: UnexpectedToken (Expected `" ++ (k.label ++ "`, found `")
          ++ (t.kind.label ++ "` (`") ++ (t.literal ++ "`))\n-")
          ++ (">" ++ " unexpected token: expected ") ++ (k.label ++ ", received ")
          ++ (t.kind.label ++ "\n") := by
      simp [ParseError.report_of_legal illegal, ← String.toList_inj]
    rw [parts]
    refine quiet_field ?_ (label_lone t.kind) (by decide)
    refine quiet_field ?_ (label_lone k) (by decide)
    refine quiet_field ?_ (by decide) (by decide)
    refine quiet_field ?_ legible.lone (by decide)
    refine quiet_field ?_ (label_lone t.kind) (by decide)
    refine quiet_field ?_ (label_lone k) (by decide)
    exact quiet_text (by decide)

theorem texts_quiet {e : Exchange} (legible : e.Legible) : Quiet (e.texts.flatMap utf8) := by
  have each : ∀ s ∈ e.texts, Quiet (utf8 s) := by
    intro s member
    rcases List.mem_append.mp member with token | error
    · obtain ⟨t, inside, rfl⟩ := List.mem_map.mp token
      exact listed_quiet (legible.tokens t inside)
    · obtain ⟨x, inside, rfl⟩ := List.mem_map.mp error
      obtain ⟨k, t, clear, rfl⟩ := legible.errors x inside
      exact report_quiet clear
  generalize e.texts = texts at each
  induction texts with
  | nil => exact quiet_of_no_angle (by simp)
  | cons s rest ih =>
    obtain ⟨first, others⟩ := List.forall_mem_cons.mp each
    rw [List.flatMap_cons]
    exact quiet_append first (ih others)

theorem prompts_transcript {es : List Exchange} (legible : ∀ e ∈ es, e.Legible) :
    prompts (transcript es) = es.length + 1 := by
  induction es with
  | nil =>
    rw [transcript_nil, ← List.append_nil promptBytes, prompts_prompt]
    rfl
  | cons e es ih =>
    obtain ⟨first, others⟩ := List.forall_mem_cons.mp legible
    rw [transcript_cons, List.append_assoc, prompts_prompt, texts_quiet first, ih others,
      List.length_cons]
    omega

end Session

end LetFrontEnd
