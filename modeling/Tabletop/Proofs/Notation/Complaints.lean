import Tabletop.Proofs.Notation.Parsing
import Tabletop.Proofs.Notation.Tiling

/-! What a failure to read shows of the text. It is an excerpt at the span of a lexeme, or at the end, and lexemes stand
between characters, so whatever is complained of is there in the text, where the complaint says. -/
namespace Tabletop

/-- What a failure to read shows of the text. -/
def NotationError.found? : NotationError → Option Excerpt
  | unexpected found _ | invalid found | danglingModifier found | unbalanced found => some found
  | empty | malformed _ | badReference _ => none

namespace Formula
variable {source : String} {ok : Text.Span → Prop}

/-- All that a failure shows of the text is an excerpt at some span that is as wanted. -/
def Shows (source : String) (ok : Text.Span → Prop) (why : NotationError) : Prop :=
  ∀ found ∈ why.found?, ∃ span, ok span ∧ found = .of source span

private theorem Shows.of {span : Text.Span} (h : ok span) {why : NotationError}
    (hfound : why.found? = some (.of source span)) : Shows source ok why := by
  intro found hmem
  rw [hfound] at hmem
  cases hmem
  exact ⟨span, h, rfl⟩

namespace Progress

private theorem release_suffix (op : Operator) (pending : List (Pending × Text.Span)) (output : List PlacedToken) :
    (release op pending output).1 <:+ pending := by
  induction pending generalizing output with
  | nil => exact List.suffix_rfl
  | cons w rest ih =>
    obtain ⟨p, span⟩ := w
    rw [release]
    split
    · exact (ih _).trans (List.suffix_cons _ rest)
    · exact List.suffix_rfl

private theorem suffix_of_close? {pending : List (Pending × Text.Span)} {output : List PlacedToken}
    {left : List (Pending × Text.Span) × List PlacedToken} (h : close? pending output = some left) :
    left.1 <:+ pending := by
  induction pending generalizing output with
  | nil => cases h
  | cons w rest ih =>
    obtain ⟨p, span⟩ := w
    rw [close?] at h
    split at h
    · exact (ih h).trans (List.suffix_cons _ rest)
    · cases h
      exact List.suffix_cons _ rest

/-- A parenthesis left open is one that waited. -/
theorem mem_of_finish {pending : List (Pending × Text.Span)} {output : List PlacedToken} {span : Text.Span}
    (h : finish pending output = .error span) : ∃ p, (p, span) ∈ pending := by
  induction pending generalizing output with
  | nil => cases h
  | cons w rest ih =>
    obtain ⟨p, opened⟩ := w
    rw [finish] at h
    split at h
    · obtain ⟨q, hq⟩ := ih h
      exact ⟨q, List.mem_cons_of_mem _ hq⟩
    · cases h
      exact ⟨p, List.mem_cons_self⟩

end Progress

/-- What waits does so at spans as wanted, and a failure shows only such. -/
def Keeps (source : String) (ok : Text.Span → Prop) : Except NotationError Progress → Prop
  | .ok after => ∀ w ∈ after.pending, ok w.2
  | .error why => Shows source ok why

/-- A lexeme makes nothing wait but itself, and is itself shown where it cannot stand. -/
theorem step_keeps {p : Progress} {next : Lexeme.Placed} (hp : ∀ w ∈ p.pending, ok w.2) (hnext : ok next.span) :
    Keeps source ok (step source p next) := by
  obtain ⟨lexeme, span⟩ := next
  have hunexpected (expected : List String) : Keeps source ok (.error (.unexpected (.of source span) expected)) :=
    .of hnext rfl
  have hwait (w : Pending) : ∀ v ∈ (w, span) :: p.pending, ok v.2 := fun v hv => by
    rcases List.mem_cons.1 hv with rfl | hv
    · exact hnext
    · exact hp v hv
  cases lexeme with
  | invalid => exact .of hnext rfl
  | number | dice | percentile | stunt =>
    simp only [step]
    split
    · exact hp
    · exact hunexpected _
  | modifier m =>
    simp only [step]
    split
    · exact hp
    · exact .of hnext rfl
  | condition c =>
    simp only [step]
    split
    · exact hp
    · exact hunexpected _
  | openParen =>
    simp only [step]
    split
    · exact hwait .openParen
    · exact hunexpected _
  | closeParen =>
    simp only [step]
    split
    · exact hunexpected _
    · split
      · rename_i pending output hclose
        exact fun w hw => hp w ((Progress.suffix_of_close? hclose).subset hw)
      · exact .of hnext rfl
  | operator op =>
    simp only [step]
    split
    · cases op with
      | sub => exact hwait .negate
      | add => exact hp
      | mul | div | pow => exact hunexpected _
    · have hsuffix := Progress.release_suffix op p.pending p.output
      intro w hw
      rcases List.mem_cons.1 hw with rfl | hw
      · exact hnext
      · exact hp w (hsuffix.subset hw)

private theorem foldlM_step_keeps {p : Progress} (hp : ∀ w ∈ p.pending, ok w.2) {lexemes : List Lexeme.Placed}
    (h : ∀ l ∈ lexemes, ok l.span) : Keeps source ok (lexemes.foldlM (step source) p) := by
  induction lexemes generalizing p with
  | nil => exact hp
  | cons l lexemes ih =>
    have hstep : Keeps source ok (step source p l) := step_keeps hp (h l List.mem_cons_self)
    rw [List.foldlM_cons]
    cases hl : step source p l with
    | error why =>
      rw [hl] at hstep
      exact hstep
    | ok after =>
      rw [hl] at hstep
      exact ih hstep fun m hm => h m (List.mem_cons_of_mem l hm)

private theorem ofLexemes_shows {lexemes : List Lexeme.Placed} (h : ∀ l ∈ lexemes, ok l.span)
    (hend : ok ⟨Text.byteLength source.toList, Text.byteLength source.toList⟩) {why : NotationError}
    (hwhy : ofLexemes source lexemes = .error why) : Shows source ok why := by
  have hrun : Keeps source ok (lexemes.foldlM (step source) Progress.start) := foldlM_step_keeps nofun h
  cases hp : lexemes.foldlM (step source) Progress.start with
  | error why' =>
    rw [hp] at hrun
    rw [ofLexemes, hp] at hwhy
    cases hwhy
    exact hrun
  | ok p =>
    rw [hp] at hrun
    by_cases hplace : p.place = .beforeOperand
    · rw [ofLexemes, hp] at hwhy
      change (if p.place = .beforeOperand then _ else _) = _ at hwhy
      rw [if_pos hplace] at hwhy
      cases hwhy
      exact .of hend rfl
    · rw [Grammar.ofLexemes_of_run hp hplace] at hwhy
      cases hfinish : Progress.finish p.pending p.output with
      | ok output =>
        rw [hfinish] at hwhy
        cases hwhy
      | error span =>
        rw [hfinish] at hwhy
        cases hwhy
        obtain ⟨w, hw⟩ := Progress.mem_of_finish hfinish
        exact .of (hrun _ hw) rfl

/-- What a complaint shows is the text at the span that it names. -/
theorem slice?_of_read {why : NotationError} (h : read source = .error why) :
    ∀ found ∈ why.found?, Text.slice? source.toList found.span = some found.text.toList := by
  let Word (span : Text.Span) : Prop :=
    ∃ before w after, source.toList = before ++ w ++ after ∧ span = .behind 0 before w
  have hshows : Shows source Word why := by
    rw [read] at h
    split at h
    · cases h
      intro found hfound
      cases hfound
    · have hend : Word ⟨Text.byteLength source.toList, Text.byteLength source.toList⟩ :=
        ⟨source.toList, [], [], by simp, by simp [Text.Span.behind, Text.byteLength]⟩
      refine ofLexemes_shows (fun l hl => ?_) hend h
      obtain ⟨before, w, after, hsource, -, hspan, -⟩ := (Lexeme.scan_tiles source).exists_word hl
      exact ⟨before, w, after, hsource, hspan⟩
  intro found hfound
  obtain ⟨span, ⟨before, w, after, hsource, rfl⟩, rfl⟩ := hshows found hfound
  have hslice : Text.slice? source.toList (.behind 0 before w) = some w := by
    rw [hsource, Text.slice?_behind]
  change Text.slice? source.toList (.behind 0 before w) = some (Text.excerpt source (.behind 0 before w)).toList
  rw [Text.excerpt, hslice, Option.getD_some, String.toList_ofList]

end Formula

namespace Lexeme

/-- How a text is cut. Every lexeme stands for a word that is not empty, between characters, and ends before the next
begins; if it means something, it is what a rule reads in the longest match of all the patterns there. Everything
outside is white space, and no word is matched by two patterns. So what a failure to read shows is the text at the span
that it names. -/
theorem scan_longest (s : String) :
    (∀ l ∈ scan s, ∃ before w after, s.toList = before ++ w ++ after ∧ w ≠ [] ∧
      l.span = ⟨Text.byteLength before, Text.byteLength before + Text.byteLength w⟩ ∧ l.span.start < l.span.stop ∧
      Text.slice? s.toList l.span = some w ∧
      (l.lexeme ≠ .invalid → ∃ rule ∈ LexemeRule.all, rule.pattern.Matches w ∧ rule.read? w = some l.lexeme ∧
        ∀ p ∈ LexemeRule.declared, ∀ v, v <+: w ++ after → p.Matches v → v.length ≤ w.length)) ∧
    ((scan s).Pairwise fun l m => l.span.start < m.span.start ∧ l.span.stop ≤ m.span.start) ∧
    (∀ before c after, s.toList = before ++ c :: after →
      (∀ l ∈ scan s, Text.byteLength before < l.span.start ∨ l.span.stop ≤ Text.byteLength before) →
      c = ' ' ∨ c = '\t' ∨ c = '\r' ∨ c = '\n') ∧
    (LexemeRule.declared.Pairwise fun p q => ∀ w, ¬ (p.Matches w ∧ q.Matches w)) ∧
    ∀ why, Formula.read s = .error why →
      ∀ found ∈ why.found?, Text.slice? s.toList found.span = some found.text.toList := by
  have htiles := scan_tiles s
  have hword : ∀ l ∈ scan s, ∃ before w after, s.toList = before ++ w ++ after ∧ w ≠ [] ∧
      l.span = ⟨Text.byteLength before, Text.byteLength before + Text.byteLength w⟩ ∧ l.span.start < l.span.stop ∧
      Text.slice? s.toList l.span = some w ∧ Cut l.lexeme w after := fun l hl => by
    obtain ⟨before, w, after, hs, hw, hspan, hcut⟩ := htiles.exists_word hl
    refine ⟨before, w, after, hs, hw, ?_, ?_, ?_, hcut⟩
    · rw [hspan, Text.Span.behind, Nat.zero_add]
    · rw [hspan]
      exact Nat.lt_add_of_pos_right (byteLength_pos hw)
    · rw [hspan, hs, Text.slice?_behind]
  have hpairwise : (scan s).Pairwise fun l m => l.span.start < m.span.start ∧ l.span.stop ≤ m.span.start :=
    htiles.pairwise.imp_of_mem fun {l m} hl _ hle => by
      obtain ⟨_, _, _, -, -, -, hlt, -⟩ := hword l hl
      exact ⟨Nat.lt_of_lt_of_le hlt hle, hle⟩
  refine ⟨hword, hpairwise, fun before c after hs hout => ?_, ?_, fun why => Formula.slice?_of_read⟩
  · have hgap := htiles.isGap_of_outside hs fun l hl => by simpa using hout l hl
    simpa [isGap, or_assoc] using hgap
  · exact LexemeRule.declared_apart.imp fun h w hboth => Pattern.not_both_of_apart h hboth.1 hboth.2

end Lexeme
end Tabletop
