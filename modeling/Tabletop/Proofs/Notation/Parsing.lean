import Tabletop.Proofs.Notation.Frames
import Tabletop.Proofs.Notation.Scanning

/-! What has been read is always the start of something the grammar derives: a stack of phrases begun,
and on top of it, behind an operand, a complete one. With `Derives.reads` this makes the formulas that can
be read exactly those of the grammar, in their postfix form. -/
namespace Tabletop
namespace Grammar
open Formula (step Pending Progress leaving)

/-- The lexemes read so far and what reading has come to. -/
inductive Read : List Lexeme.Placed → Progress → Prop where
  | before (fs : List Frame) (hfs : Nested fs) :
      Read (lexemesOf fs) ⟨(tokensOf fs).reverse, pendingOf fs, .beforeOperand⟩
  | operand (fs : List Frame) (hfs : Nested fs) (o : Operand) :
      Read (lexemesOf fs ++ o.lexemes)
        ⟨(tokensOf fs ++ o.tokens).reverse, pendingOf fs, .afterOperand o.takesConditions⟩
  | paren (fs : List Frame) (hfs : Nested fs) {p : Phrase} (hp : Derives .primary p) :
      Read (lexemesOf fs ++ p.lexemes) ⟨(tokensOf fs ++ p.tokens).reverse, pendingOf fs, .afterParen⟩

variable {source : String} {place : Formula.Place} {fs : List Frame} {p : Phrase} {next : Progress}

private theorem Read.begin (f : Frame) (hf : f.Sound) (hout : f.outer.rank ≤ (hole fs).rank) (hfs : Nested fs) :
    Read (lexemesOf fs ++ f.lexemes)
      ⟨f.tokens.reverse ++ (tokensOf fs).reverse, f.pending?.toList ++ pendingOf fs, .beforeOperand⟩ := by
  have h := Read.before (f :: fs) ⟨hf, hout, hfs⟩
  rwa [lexemesOf, tokensOf, List.reverse_append, pendingOf_cons] at h

private theorem Read.operator (hplace : place ≠ .beforeOperand) (hfs : Nested fs) (hp : Derives .primary p)
    {op : Operator} {sign : Text.Span}
    (h : step source ⟨(tokensOf fs ++ p.tokens).reverse, pendingOf fs, place⟩ ⟨.operator op, sign⟩ = .ok next) :
    Read (lexemesOf fs ++ p.lexemes ++ [⟨.operator op, sign⟩]) next := by
  obtain ⟨own, gs, q, hgs, hq, hhole, hpend, hown, hbase, hlex, htok⟩ := complete_left op fs hfs hp
  rw [hpend, step_operator sign hplace hown hbase] at h
  cases h
  rw [← hlex, ← List.reverse_append, ← htok, List.append_assoc]
  exact .before (.left op sign q :: gs) ⟨hq, hhole, hgs⟩

private theorem Read.closeParen (hplace : place ≠ .beforeOperand) (hfs : Nested fs) (hp : Derives .primary p)
    {closed : Text.Span}
    (h : step source ⟨(tokensOf fs ++ p.tokens).reverse, pendingOf fs, place⟩ ⟨.closeParen, closed⟩ = .ok next) :
    Read (lexemesOf fs ++ p.lexemes ++ [⟨.closeParen, closed⟩]) next := by
  obtain ⟨own, gs, q, hgs, hq, hgs' | ⟨opened, hs, rfl⟩, hpend, hown, hlex, htok⟩ := complete_sum fs hfs hp
  · subst hgs'
    rw [hpend] at h
    simp only [step, if_neg hplace, pendingOf, List.filterMap_nil, List.append_nil,
      Formula.Progress.close?_eq_none hown] at h
    cases h
  · rw [hpend, pendingOf_cons] at h
    have h := (step_closeParen opened closed hplace hown).symm.trans h
    cases h
    have hq' := Read.paren hs hgs.2.2 (.parens opened closed hq)
    rw [← List.reverse_append, ← htok, ← hlex]
    simpa [lexemesOf, tokensOf, Frame.lexemes, Frame.tokens, Phrase.lexemes, Phrase.tokens] using hq'

private theorem Read.operandStart (hfs : Nested fs) (h : Head) (hh : h.conditions = []) (span : Text.Span) :
    Read (lexemesOf fs ++ [⟨h.lexeme, span⟩])
      ⟨⟨h.token, span⟩ :: (tokensOf fs).reverse, pendingOf fs, .afterOperand h.takesConditions⟩ := by
  have hr := Read.operand fs hfs ⟨h, span, []⟩
  simpa [Operand.lexemes, Operand.tokens, Operand.takesConditions, hh, reach] using hr

private theorem Read.modifier (hfs : Nested fs) (o : Operand) (m : WrittenModifier) (span : Text.Span) :
    Read (lexemesOf fs ++ o.lexemes ++ [⟨.modifier m, span⟩])
      ⟨⟨.modifier m [], span⟩ :: (tokensOf fs ++ o.tokens).reverse, pendingOf fs,
        .afterOperand m.takesConditions⟩ := by
  have hr := Read.operand fs hfs { o with suffixes := o.suffixes ++ [⟨m, span, [], .inl rfl⟩] }
  simpa [Operand.lexemes, Operand.tokens, Operand.takesConditions, Suffix.lexemes, Suffix.token, reach] using hr

/-- A condition belongs to the last part of the operand. -/
theorem Operand.exists_condition (o : Operand) (ho : o.takesConditions = true) (c : PlacedCondition) :
    ∃ o' : Operand, o'.takesConditions = true ∧ o'.lexemes = o.lexemes ++ [c.lexeme] ∧
      ∀ ts, (ts ++ o'.tokens).reverse =
        Progress.addCondition c.condition c.span.stop (ts ++ o.tokens).reverse := by
  obtain ⟨h, span, ss⟩ := o
  rcases List.eq_nil_or_concat ss with rfl | ⟨ss, s, rfl⟩
  · cases h with
    | dice n faces cs =>
      refine ⟨⟨.dice n faces (cs ++ [c]), span, []⟩, rfl, ?_, fun ts => ?_⟩
      · simp [Operand.lexemes, Head.lexeme, Head.conditions]
      · simp [Operand.tokens, Head.token, Head.conditions, reach, Progress.addCondition]
    | _ => cases ho
  · have hm : s.modifier.takesConditions = true := by simpa [Operand.takesConditions] using ho
    let s' : Suffix := { s with conditions := s.conditions ++ [c], allowed := .inr hm }
    refine ⟨⟨h, span, ss ++ [s']⟩, ?_, ?_, fun ts => ?_⟩
    · simpa [Operand.takesConditions, s'] using hm
    · simp [Operand.lexemes, Suffix.lexemes, s']
    · simp [Operand.tokens, Suffix.token, reach, Progress.addCondition, s']

private theorem Read.condition (hfs : Nested fs) (o : Operand) (ho : o.takesConditions = true) (c : PlacedCondition) :
    Read (lexemesOf fs ++ o.lexemes ++ [c.lexeme])
      ⟨Progress.addCondition c.condition c.span.stop (tokensOf fs ++ o.tokens).reverse, pendingOf fs,
        .afterOperand true⟩ := by
  obtain ⟨o', ho', hlex, htok⟩ := o.exists_condition ho c
  have hr := Read.operand fs hfs o'
  rwa [hlex, htok, ho', ← List.append_assoc] at hr

/-- What one lexeme adds is again the start of something derived. -/
theorem Read.step {ls : List Lexeme.Placed} {s : Progress} (hs : Read ls s) {l : Lexeme.Placed}
    (h : Formula.step source s l = .ok next) : Read (ls ++ [l]) next := by
  obtain ⟨lexeme, span⟩ := l
  cases hs with
  | before fs hfs =>
    cases lexeme with
    | number value =>
      cases h
      exact .operandStart hfs (.number value) rfl span
    | dice n faces =>
      cases h
      exact .operandStart hfs (.dice n faces []) rfl span
    | percentile n digits =>
      cases h
      exact .operandStart hfs (.percentile n digits) rfl span
    | stunt =>
      cases h
      exact .operandStart hfs .stunt rfl span
    | openParen =>
      cases h
      exact .begin (.paren span) trivial (Nat.zero_le _) hfs
    | operator op =>
      cases op with
      | add =>
        cases h
        exact .begin (.plus span) trivial (unary_le_hole fs) hfs
      | sub =>
        cases h
        exact .begin (.negate span) trivial (unary_le_hole fs) hfs
      | _ => cases h
    | _ => cases h
  | operand fs hfs o =>
    cases lexeme with
    | modifier m =>
      cases h
      exact .modifier hfs o m span
    | condition c =>
      cases ho : o.takesConditions with
      | false =>
        rw [ho] at h
        cases h
      | true =>
        rw [ho] at h
        cases h
        exact .condition hfs o ho ⟨c, span⟩
    | closeParen =>
      refine .closeParen ?_ hfs (.operand o) h
      nofun
    | operator op =>
      refine .operator ?_ hfs (.operand o) h
      nofun
    | _ => cases h
  | paren fs hfs hp =>
    cases lexeme with
    | closeParen =>
      refine .closeParen ?_ hfs hp h
      nofun
    | operator op =>
      refine .operator ?_ hfs hp h
      nofun
    | _ => cases h

private theorem Read.run {ls ms : List Lexeme.Placed} {s : Progress} (hs : Read ls s)
    (h : ms.foldlM (Formula.step source) s = .ok next) : Read (ls ++ ms) next := by
  induction ms generalizing ls s with
  | nil =>
    cases h
    simpa using hs
  | cons m ms ih =>
    rw [List.foldlM_cons] at h
    cases hm : Formula.step source s m with
    | error why =>
      rw [hm] at h
      cases h
    | ok t =>
      rw [hm] at h
      simpa using ih (hs.step hm) h

variable {lexemes : List Lexeme.Placed} {f : Formula}

/-- What is complete at the end of a text is a formula if no parenthesis is open. -/
theorem derives_of_finish (hfs : Nested fs) (hp : Derives .primary p) {out : List PlacedToken}
    (h : Progress.finish (pendingOf fs) (tokensOf fs ++ p.tokens).reverse = .ok out) :
    ∃ q, Derives .sum q ∧ q.lexemes = lexemesOf fs ++ p.lexemes ∧ out.reverse = q.tokens := by
  obtain ⟨own, gs, q, hgs, hq, hgs' | ⟨opened, hs, rfl⟩, hpend, hown, hlex, htok⟩ := complete_sum fs hfs hp
  · subst hgs'
    rw [hpend, show pendingOf [] = [] from rfl, List.append_nil, Progress.finish_eq_ok hown] at h
    cases h
    refine ⟨q, hq, hlex, ?_⟩
    rw [List.reverse_append, List.reverse_reverse, List.reverse_reverse, ← htok]
    rfl
  · rw [hpend] at h
    cases (Progress.finish_append_openParen hown).symm.trans h

private theorem Read.finish {ls : List Lexeme.Placed} {s : Progress} (hs : Read ls s)
    (hplace : s.place ≠ .beforeOperand) {out : List PlacedToken} (h : Progress.finish s.pending s.output = .ok out) :
    ∃ q, Derives .sum q ∧ q.lexemes = ls ∧ out.reverse = q.tokens := by
  cases hs with
  | before fs hfs => exact absurd rfl hplace
  | operand fs hfs o => exact derives_of_finish hfs (.operand o) h
  | paren fs hfs hp => exact derives_of_finish hfs hp h

theorem ofLexemes_of_run {s : Progress} (h : lexemes.foldlM (Formula.step source) Progress.start = .ok s)
    (hplace : s.place ≠ .beforeOperand) :
    Formula.ofLexemes source lexemes =
      match Progress.finish s.pending s.output with
      | .ok output => .ok ⟨source, output.reverse⟩
      | .error span => .error (.unbalanced (.of source span)) := by
  rw [Formula.ofLexemes, h]
  change (if s.place = .beforeOperand then _ else _) = _
  rw [if_neg hplace]
  rfl

private theorem exists_derives_of_ofLexemes (h : Formula.ofLexemes source lexemes = .ok f) :
    ∃ p, Derives .sum p ∧ p.lexemes = lexemes ∧ f = ⟨source, p.tokens⟩ := by
  cases hrun : lexemes.foldlM (Formula.step source) Progress.start with
  | error why =>
    rw [Formula.ofLexemes, hrun] at h
    cases h
  | ok s =>
    have hs : Read lexemes s := Read.run (.before [] trivial) hrun
    by_cases hplace : s.place = .beforeOperand
    · rw [Formula.ofLexemes, hrun] at h
      change (if s.place = .beforeOperand then _ else _) = _ at h
      rw [if_pos hplace] at h
      cases h
    · rw [ofLexemes_of_run hrun hplace] at h
      cases hfin : Progress.finish s.pending s.output with
      | error at_ =>
        rw [hfin] at h
        cases h
      | ok out =>
        rw [hfin] at h
        cases h
        obtain ⟨q, hq, hlex, hout⟩ := hs.finish hplace hfin
        exact ⟨q, hq, hlex, congrArg _ hout⟩

theorem Derives.ofLexemes {p : Phrase} (h : Derives .sum p) :
    Formula.ofLexemes source p.lexemes = .ok ⟨source, p.tokens⟩ := by
  have hreads : Reads source .sum p := h.reads
  obtain ⟨own, out, place, hplace, hown, hout, hrun⟩ := hreads [] [] nofun
  have hpos : ∀ w ∈ own, 0 < w.1.strength := fun w hw => Nat.lt_of_lt_of_le (by decide) (hown w hw)
  rw [List.append_nil] at hrun
  rw [ofLexemes_of_run hrun hplace, Progress.finish_eq_ok hpos]
  simpa using hout

private theorem Operand.ne_invalid (o : Operand) : ∀ l ∈ o.lexemes, l.lexeme ≠ .invalid := by
  intro l hl hinvalid
  simp only [Operand.lexemes, List.cons_append, List.mem_cons, List.mem_append, List.mem_map,
    List.mem_flatMap] at hl
  rcases hl with rfl | ⟨c, -, rfl⟩ | ⟨s, -, hl⟩
  · cases hhead : o.head <;> simp [hhead, Head.lexeme] at hinvalid
  · cases hinvalid
  · simp only [Suffix.lexemes, List.mem_cons, List.mem_map] at hl
    rcases hl with rfl | ⟨c, -, rfl⟩ <;> cases hinvalid

namespace Phrase

private theorem lexemes_ne_nil (p : Phrase) : p.lexemes ≠ [] := by
  cases p with
  | operand o => simp [lexemes, Operand.lexemes]
  | _ => simp [lexemes]

theorem ne_invalid (p : Phrase) : ∀ l ∈ p.lexemes, l.lexeme ≠ .invalid := by
  induction p with
  | operand o => exact Operand.ne_invalid o
  | parens opened closed p ih => simpa [lexemes, or_imp, forall_and] using ih
  | plus sign p ih => simpa [lexemes] using ih
  | negate sign p ih => simpa [lexemes] using ih
  | binary op sign l r ihl ihr => simpa [lexemes, or_imp, forall_and] using And.intro ihl ihr

end Phrase
end Grammar

namespace Formula
open Grammar

theorem exists_derives_of_read {text : String} {f : Formula} (h : read text = .ok f) :
    ∃ p, Derives .sum p ∧ p.lexemes = Lexeme.scan text ∧ f = ⟨text, p.tokens⟩ := by
  rw [read] at h
  split at h
  · cases h
  · exact exists_derives_of_ofLexemes h

/-- A text is a formula exactly if its lexemes all mean something and the grammar derives them, and then
its tokens are the postfix form of what is derived. -/
theorem read_eq_ok_iff (text : String) (f : Formula) :
    read text = .ok f ↔ (∀ l ∈ Lexeme.scan text, l.lexeme ≠ .invalid) ∧
      ∃ p, Derives .sum p ∧ p.lexemes = Lexeme.scan text ∧ f = ⟨text, p.tokens⟩ := by
  constructor
  · intro h
    obtain ⟨p, hp, hlex, hf⟩ := exists_derives_of_read h
    exact ⟨hlex ▸ p.ne_invalid, p, hp, hlex, hf⟩
  · rintro ⟨hvalid, p, hp, hlex, rfl⟩
    rw [read]
    split
    · rename_i hblank
      obtain ⟨l, hl⟩ := List.exists_mem_of_ne_nil _ p.lexemes_ne_nil
      rw [hlex] at hl
      exact absurd (Lexeme.scan_eq_invalid (Text.isBlank_of_trimChars_eq_nil hblank) hl) (hvalid l hl)
    · rw [← hlex]
      exact hp.ofLexemes

end Formula
end Tabletop
