import ScriptLens.Grammar.Program
import ScriptLens.Proofs.Scan.Kept

/-!
# Looking ahead

A parser that looks beyond the token ahead returns its scanner to where it was.
-/

namespace ScriptLens

/-- Two parsers differ at most in the open braces, which are given in the second one, and in the
problems recorded. -/
structure Parser.Glanced (s : Settings) (braces : List Brace) (p p' : Parser) : Prop where
  rest : p' = { p with cursor := { p.cursor with braces, errors := p'.cursor.errors } }
  errors : p.cursor.errors.toList <+: p'.cursor.errors.toList
  silent : s.source.tolerant = false → p'.cursor.errors = p.cursor.errors

variable {s : Settings} {p p' : Parser} {t : Token} {braces : List Brace}

namespace Parser.Glanced

theorem eq_iff (glanced : Glanced s braces p p') (strict : s.source.tolerant = false) :
  p' = p ↔ braces = p.cursor.braces
  := by
  have braces' : p'.cursor.braces = braces := congrArg (·.cursor.braces) glanced.rest
  constructor
  · rintro rfl
    exact braces'.symm
  · rintro rfl
    exact glanced.rest.trans (by rw [glanced.silent strict])

end Parser.Glanced

namespace Parse

def Follows (x : Scan Token) (s : Settings) (p : Parser) (t : Token) : Prop :=
  ∃ l c c', Scan.comments s.source p.cursor = .ok l c ∧ x s.source c = .ok t c'

theorem glance_glanced {x : Scan Token} {f : List Brace → List Brace}
    (run : glance x s p = .ok t p')
    (reads : ∀ {c c'}, x s.source c = .ok t c' →
      Cursor.Kept s.source { c with braces := f c.braces } c') :
  Follows x s p t ∧ Parser.Glanced s (f p.cursor.braces) p p'
  := by
  obtain ⟨_, _, ⟨⟩, run⟩ := computation_bind_eq_ok.1 run
  obtain ⟨l, p1, first, run⟩ := computation_bind_eq_ok.1 run
  obtain ⟨c, comments, rfl⟩ := scan_eq_ok first
  obtain ⟨_, p2, second, run⟩ := computation_bind_eq_ok.1 run
  obtain ⟨c', token, rfl⟩ := scan_eq_ok second
  cases run
  obtain ⟨braces, inModule, errors, silent⟩ :=
    Scan.Kept.reopen (f := f) (Moves.leads comments) (reads token)
  refine ⟨⟨l, c, c', comments, token⟩, ?_, errors, silent⟩
  dsimp only at braces inModule ⊢
  rw [braces, inModule]

/-- Looking at the token after the token ahead changes nothing but the open braces, by those of that
token, and the problems recorded; if none may be, nothing changes exactly if the token has no
braces. -/
theorem lookahead_restores_scanner (s : Settings) (p p' : Parser) :
  (∀ x ∈ [atLexicalDeclaration, atAsyncFunction, atImportCall], ∀ b, x s p = .ok b p' →
    p' = p ∨ ∃ t, Follows Scan.lex s p t ∧ Parser.Glanced s (t.openAfter p.cursor.braces) p p' ∧
      (s.source.tolerant = false → (p' = p ↔ t.openAfter p.cursor.braces = p.cursor.braces))) ∧
  ∀ t, peekInTag s p = .ok t p' → Follows Scan.markupToken s p t ∧
    Parser.Glanced s p.cursor.braces p p' ∧ (s.source.tolerant = false → p' = p)
  := by
  have peeks {t : Token} (run : peek s p = .ok t p') :
      ∃ t, Follows Scan.lex s p t ∧ Parser.Glanced s (t.openAfter p.cursor.braces) p p' ∧
        (s.source.tolerant = false → (p' = p ↔ t.openAfter p.cursor.braces = p.cursor.braces)) := by
    obtain ⟨follows, glanced⟩ := glance_glanced run fun token => (Scan.lex_reads token).kept
    exact ⟨t, follows, glanced, glanced.eq_iff⟩
  constructor
  · intro x member b run
    rcases List.mem_cons.1 member with rfl | member
    · obtain ⟨t, p1, peeked, ⟨⟩⟩ := computation_bind_eq_ok.1 run
      exact .inr (peeks peeked)
    rcases List.mem_cons.1 member with rfl | member
    · obtain ⟨b, _, ⟨⟩, run⟩ := computation_bind_eq_ok.1 run
      split at run
      · cases run
        exact .inl rfl
      obtain ⟨_, _, ⟨⟩, run⟩ := computation_bind_eq_ok.1 run
      obtain ⟨t, p1, peeked, ⟨⟩⟩ := computation_bind_eq_ok.1 run
      exact .inr (peeks peeked)
    · obtain rfl := List.mem_singleton.1 member
      obtain ⟨b, _, ⟨⟩, run⟩ := computation_bind_eq_ok.1 run
      split at run
      · cases run
        exact .inl rfl
      obtain ⟨t, p1, peeked, ⟨⟩⟩ := computation_bind_eq_ok.1 run
      exact .inr (peeks peeked)
  · intro t run
    obtain ⟨follows, glanced⟩ := glance_glanced (f := id) run Moves.leads
    exact ⟨follows, glanced, fun strict => (glanced.eq_iff strict).2 rfl⟩

def declaring : Settings := { source := { text := "let \x7ba\x7d = b" } }

def afterLet : Parser := { start declaring.source.text 0 with cursor := { index := 3 } }

/-- Looking at the brace of the pattern. -/
theorem lookahead_restores_scanner_afterLet :
  ∃ b p', atLexicalDeclaration declaring afterLet = .ok b p' ∧
    (p' = afterLet ∨ ∃ t, Follows Scan.lex declaring afterLet t ∧
      Parser.Glanced declaring (t.openAfter []) afterLet p' ∧
      (declaring.source.tolerant = false → (p' = afterLet ↔ t.openAfter [] = [])))
  := by
  have found : ends (atLexicalDeclaration declaring) afterLet (fun _ _ => true) = true := by
    decide +kernel
  obtain ⟨b, p', run, -⟩ := exists_of_ends found
  exact ⟨b, p', run, (lookahead_restores_scanner ..).1 _ List.mem_cons_self b run⟩

/-- The brace is open once the parser has looked at it, although it has not been read. -/
theorem lookahead_opens_brace :
  ∃ b p', atLexicalDeclaration declaring afterLet = .ok b p' ∧
    p'.cursor.braces = [.plain] ∧ afterLet.cursor.braces = []
  := by
  have found : ends (atLexicalDeclaration declaring) afterLet
      (fun _ p' => p'.cursor.braces = [.plain]) = true := by decide +kernel
  obtain ⟨b, p', run, opened⟩ := exists_of_ends found
  exact ⟨b, p', run, of_decide_eq_true opened, rfl⟩

end Parse

end ScriptLens
