import ScriptLens.Proofs.Grammar.Productions

/-!
# Operators by precedence

A sequence of operands with binary operators between them is put into a tree by two stacks.  Which
tokens are operators, and how strongly they bind, is said by a table of its own.
-/

namespace ScriptLens

def Parser.bare (p : Parser) : Parser := { p with nextRef := 0, comments := {}, built := #[] }

set_option synthInstance.maxSize 10000000
set_option synthInstance.maxHeartbeats 200000

namespace Parse

/-! ### Operators -/

/-- The punctuators that are binary operators, by how strongly they bind. -/
def levels : List (Nat × List Text) :=
  [(1, ["||"]), (2, ["&&"]), (3, ["|"]), (4, ["^"]), (5, ["&"]), (6, ["==", "!=", "===", "!=="]),
    (7, ["<", ">", "<=", ">="]), (8, ["<<", ">>", ">>>"]), (9, ["+", "-"]), (11, ["*", "/", "%"])]

/-- How strongly a token binds as a binary operator; the word `in` is one only if it is allowed. -/
inductive Binds (allowIn : Bool) (t : Token) : Nat → Prop
  | punctuator {n : Nat} {ops : List Text} {op : Text} :
    t.kind = .punctuator → t.value = .text op → (n, ops) ∈ levels → op ∈ ops → Binds allowIn t n
  | instance_of : t.kind = .keyword → t.value = .text "instanceof" → Binds allowIn t 7
  | allowed : allowIn = true → t.kind = .keyword → t.value = .text "in" → Binds allowIn t 7

/-- Logical operators make logical expressions, and all others binary ones. -/
def kindOf (operator : Text) : Kind :=
  if operator = "||" ∨ operator = "&&" then .logicalExpression else .binaryExpression

theorem binaryKind_eq (operator : Text) : binaryKind operator = kindOf operator
  := by simp [binaryKind, kindOf]

theorem Binds.precedence_eq {allowIn : Bool} {t : Token} {n : Nat} (binds : Binds allowIn t n) :
  precedence allowIn t = n ∧ n ≠ 0
  := by
  cases binds with
  | punctuator kind value level member =>
    have table : ∀ l ∈ levels, ∀ op ∈ l.2, (precedences.lookup op).getD 0 = l.1 ∧ l.1 ≠ 0 := by
      decide +kernel
    rw [precedence, kind, value]
    exact table _ level _ member
  | instance_of kind value =>
    rw [precedence, kind, value]
    simp
  | allowed isAllowed kind value =>
    rw [precedence, kind, value, isAllowed]
    simp

theorem binds_of_precedence {allowIn : Bool} {t : Token} (operates : precedence allowIn t ≠ 0) :
  Binds allowIn t (precedence allowIn t)
  := by
  revert operates
  unfold precedence
  split
  · rename_i op kind value
    intro operates
    cases found : precedences.lookup op with
    | none =>
      rw [found] at operates
      exact absurd rfl operates
    | some n =>
      have table : ∀ p ∈ precedences, ∃ l ∈ levels, l.1 = p.2 ∧ p.1 ∈ l.2 := by decide +kernel
      obtain ⟨l, l', isTable, -⟩ := List.lookup_eq_some_iff.1 found
      obtain ⟨level, isLevel, rfl, member⟩ := table (op, n) (by simp [isTable])
      exact .punctuator kind value isLevel member
  · rename_i op kind value
    split
    · rename_i word
      intro _
      rcases Bool.or_eq_true_iff.1 word with isWord | isWord
      · exact .instance_of kind (by rw [value, eq_of_beq isWord])
      · obtain ⟨isAllowed, isWord⟩ := Bool.and_eq_true_iff.1 isWord
        exact .allowed isAllowed kind (by rw [value, eq_of_beq isWord])
    · exact fun operates => absurd rfl operates
  · exact fun operates => absurd rfl operates

theorem binds_unique {allowIn : Bool} {t : Token} {m n : Nat} (first : Binds allowIn t m)
    (second : Binds allowIn t n) : m = n
  := first.precedence_eq.1.symm.trans second.precedence_eq.1

theorem precedence_eq_zero_iff {allowIn : Bool} {t : Token} :
  precedence allowIn t = 0 ↔ ∀ n, ¬ Binds allowIn t n
  := by
  constructor
  · intro none n binds
    exact binds.precedence_eq.2 (binds.precedence_eq.1.symm.trans none)
  · intro none
    by_contra operates
    exact none _ (binds_of_precedence operates)

/-! ### Trees of operands and operators -/

/-- An operand: its tree, the token that it starts with, and where it ends. -/
structure Operand where
  tree : Tree
  first : Token
  stop : Nat

/-- A way to put operands together with operators. -/
inductive Bracketing where
  | operand (o : Operand)
  | binary (left : Bracketing) (operator : Token) (right : Bracketing)

namespace Bracketing

def first : Bracketing → Token
  | operand o => o.first
  | binary l _ _ => l.first

def stop : Bracketing → Nat
  | operand o => o.stop
  | binary _ _ r => r.stop

def inorder : Bracketing → List (Token ⊕ Operand)
  | operand o => [.inr o]
  | binary l t r => l.inorder ++ .inl t :: r.inorder

/-- How strongly the outermost operator binds. -/
def Binds (allowIn : Bool) : Bracketing → Nat → Prop
  | operand _, _ => False
  | binary _ t _, n => Parse.Binds allowIn t n

/-- To the left of an operator no weaker operators are inside, to the right only stronger ones. -/
def Respects (allowIn : Bool) : Bracketing → Prop
  | operand _ => True
  | binary l t r => l.Respects allowIn ∧ r.Respects allowIn ∧ ∃ n, Parse.Binds allowIn t n ∧
    (∀ p, l.Binds allowIn p → n ≤ p) ∧ ∀ p, r.Binds allowIn p → n < p

end Bracketing

/-- A node with two operands, which goes from one position to another. -/
def IsBinary (s : Settings) (operator : Text) (left right : Tree) (start stop : Nat) (e : Tree) : Prop :=
  ∃ ref more, (∀ a ∈ more, a.1 = Attr.location) ∧
    e = .node ref (kindOf operator)
      ([(.operator, .text operator), (.left, left), (.right, right)]
        ++ ((if s.range then [(.span, ofRange start stop)] else []) ++ more))

/-- The tree for a way to put operands together. -/
def Bracketing.Shows (s : Settings) : Bracketing → Tree → Prop
  | operand o, e => e = o.tree
  | binary l t r, e => ∃ left right, l.Shows s left ∧ r.Shows s right ∧
    IsBinary s t.value.shown left right l.first.start r.stop e

/-! ### Steps -/

section

variable {α β : Type} {s : Settings} {p : Parser} {Q Q' : α → Parser → Prop}
  {E E' : Failure → Parser → Prop}

/-- How a computation ends: `Q` holds of its result, or `E` of its failure. -/
def Outcome (x : Parse α) (s : Settings) (p : Parser) (Q : α → Parser → Prop)
    (E : Failure → Parser → Prop) : Prop :=
  match x s p with
  | .ok a q => Q a q
  | .error f q => E f q

theorem Outcome.run (x : Parse α) :
  Outcome x s p (fun a q => x s p = .ok a q) fun f q => x s p = .error f q
  := by
  unfold Outcome
  split <;> assumption

theorem Outcome.mono {x : Parse α} (ends : Outcome x s p Q E) (gives : ∀ a q, Q a q → Q' a q)
    (fails : ∀ f q, E f q → E' f q) : Outcome x s p Q' E'
  := by
  unfold Outcome at *
  split <;> simp_all

@[simp]
theorem outcome_bind {x : Parse α} {f : α → Parse β} {Q : β → Parser → Prop} :
  Outcome (x >>= f) s p Q E ↔ Outcome x s p (fun a q => Outcome (f a) s q Q E) E
  := by
  unfold Outcome
  simp only [bind, ReaderT.bind, EStateM.bind]
  cases x s p <;> rfl

@[simp]
theorem outcome_pure {a : α} : Outcome (pure a) s p Q E ↔ Q a p := Iff.rfl

@[simp]
theorem outcome_read {Q : Settings → Parser → Prop} : Outcome read s p Q E ↔ Q s p := Iff.rfl

@[simp]
theorem outcome_get {Q : Parser → Parser → Prop} : Outcome get s p Q E ↔ Q p p := Iff.rfl

@[simp]
theorem outcome_modify {f : Parser → Parser} {Q : Unit → Parser → Prop} :
  Outcome (modify f) s p Q E ↔ Q () (f p) := Iff.rfl

theorem visit_binary (a : Attachment) (operator : Text) (ref : Nat) (attrs : List (Attr × Tree)) (span : Span) :
  ∃ a', a.visit (.node ref (binaryKind operator) attrs) span = .ok a'
  := by
  have other : (binaryKind operator == .program) = false ∧ (binaryKind operator != .blockStatement) = true := by
    unfold binaryKind
    split <;> decide
  simp only [Attachment.visit, Attachment.visitInner, Tree.kind, other, Bool.false_and, Bool.true_or]
  exact ⟨_, rfl⟩

theorem spanAttrs_outcome (first last : Mark) :
  Outcome (spanAttrs first last) s p (fun l q => q.bare = p.bare ∧ ∃ more, (∀ a ∈ more, a.1 = Attr.location) ∧
    l = (if s.range then [(.span, ofRange first.index last.index)] else []) ++ more) fun _ _ => False
  := by
  unfold spanAttrs
  refine outcome_bind.2 ?_
  change Outcome (if !s.loc then _ else _) s p _ _
  split
  · exact ⟨rfl, [], by simp, (List.append_nil _).symm⟩
  · exact ⟨rfl, [_], by simp, rfl⟩

theorem handOver_outcome (plain : s.delegate = none) (operator : Text) (ref : Nat) (attrs : List (Attr × Tree))
    (span : Span) :
  Outcome (handOver (.node ref (binaryKind operator) attrs) span) s p
    (fun e q => q.bare = p.bare ∧ e = .node ref (binaryKind operator) attrs) fun _ _ => False
  := by
  unfold handOver
  simp only [outcome_bind, outcome_read, outcome_modify, plain, Option.bind_none, outcome_pure]
  split
  · obtain ⟨a, visited⟩ := visit_binary p.comments operator ref attrs span
    simp only [outcome_bind, outcome_get, visited, outcome_modify, outcome_pure]
    exact ⟨rfl, trivial⟩
  · exact ⟨rfl, rfl⟩

theorem markOf_index (t : Token) (i : Int) : (markOf t i).index = t.start := by
  unfold markOf
  dsimp only
  split <;> rfl

theorem finishBinary_outcome (plain : s.delegate = none) (m : Mark) (operator : Text) (left right : Tree) :
  Outcome (finishBinary m operator left right) s p
    (fun e q => q.bare = p.bare ∧ IsBinary s operator left right m.index p.lastMark.index e) fun _ _ => False
  := by
  unfold finishBinary finish
  refine outcome_bind.2 (outcome_bind.2 ?_)
  refine (spanAttrs_outcome m p.lastMark).mono ?_ fun _ _ => id
  rintro _ q ⟨alike, more, located, rfl⟩
  refine outcome_bind.2 ?_
  refine (handOver_outcome plain ..).mono ?_ fun _ _ => id
  rintro _ r ⟨built, rfl⟩
  exact ⟨built.trans alike, _, more, located, by rw [binaryKind_eq]⟩

/-! ### The stacks -/

/-- The stacks as a tree: what is pending is put around what has been read last. -/
def close : List (Bracketing × Token) → Bracketing → Bracketing
  | [], b => b
  | (l, t) :: bs, b => close bs (.binary l t b)

/-- What a pending operand is made from. -/
structure Pends (s : Settings) (allowIn : Bool) (o : PendingOperand) (b : Bracketing × Token) : Prop where
  left : b.1.Shows s o.left
  start : o.start = b.1.first
  operator : o.operator = b.2.value.shown
  binds : Binds allowIn b.2 o.precedence

/-- An operator may follow: what is pending is weaker, what has been read last is as strong at least. -/
structure Ready (allowIn : Bool) (p : Nat) (bs : List (Bracketing × Token)) (b : Bracketing) : Prop where
  weaker : ∀ l t, bs.head? = some (l, t) → ∀ q, Binds allowIn t q → q < p
  stronger : ∀ q, b.Binds allowIn q → p ≤ q

variable {a : Bool} {bs : List (Bracketing × Token)} {b c : Bracketing}

theorem inorder_close {l : List (Token ⊕ Operand)} (longer : c.inorder = b.inorder ++ l) :
  (close bs c).inorder = (close bs b).inorder ++ l
  := by
  induction bs generalizing b c with
  | nil => exact longer
  | cons o bs ih =>
    refine ih ?_
    simp [Bracketing.inorder, longer]

theorem respects_close (respects : (close bs b).Respects a) :
  b.Respects a ∧ (c.Binds a = b.Binds a → c.Respects a → (close bs c).Respects a)
  := by
  induction bs generalizing b c with
  | nil => exact ⟨respects, fun _ => id⟩
  | cons o bs ih =>
    obtain ⟨⟨left, right, n, binds, weak, strong⟩, change⟩ := ih (c := .binary o.1 o.2 c) respects
    refine ⟨right, fun same respects => change rfl ⟨left, respects, n, binds, weak, ?_⟩⟩
    rwa [same]

/-- An operator and its right operand go inside what is weaker and around what is not. -/
theorem Ready.respects_close {t : Token} {n : Nat} (ready : Ready a n bs b) (binds : Binds a t n)
    (o : Operand) (respects : (close bs b).Respects a) : (close ((b, t) :: bs) (.operand o)).Respects a
  := by
  have last := (Parse.respects_close (c := b) respects).1
  have node : (Bracketing.binary b t (.operand o)).Respects a :=
    ⟨last, trivial, n, binds, ready.stronger, fun _ => False.elim⟩
  cases bs with
  | nil => exact node
  | cons q bs =>
    obtain ⟨⟨left, -, k, isWeaker, weak, -⟩, change⟩ :=
      Parse.respects_close (c := .binary q.1 q.2 (.binary b t (.operand o)))
        (show (close bs (.binary q.1 q.2 b)).Respects a from respects)
    refine change rfl ⟨left, node, k, isWeaker, weak, fun p binds' => ?_⟩
    rw [← binds_unique binds binds']
    exact ready.weaker q.1 q.2 rfl k isWeaker

variable {os : List PendingOperand} {right : Tree}

theorem Pends.complete (plain : s.delegate = none) {o : PendingOperand} {o' : Bracketing × Token}
    (pending : Pends s a o o') (shown : b.Shows s right) (stop : b.stop = p.lastMark.index) (i : Int) :
  Outcome (finishBinary (markOf o.start i) o.operator o.left right) s p (fun e q => q.bare = p.bare ∧
    (Bracketing.binary o'.1 o'.2 b).Shows s e ∧ b.stop = q.lastMark.index) fun _ _ => False
  := by
  refine (finishBinary_outcome plain ..).mono ?_ fun _ _ => id
  rintro e q ⟨alike, node⟩
  have mark : q.lastMark = p.lastMark := (congrArg Parser.lastMark alike :)
  refine ⟨alike, ⟨o.left, right, pending.left, shown, ?_⟩, by rw [mark, stop]⟩
  rwa [← pending.operator, ← pending.start, stop, ← markOf_index o.start i]

/-- Completing nodes does not change the tree. -/
theorem reduce_outcome (plain : s.delegate = none) {n : Nat} (stacked : List.Forall₂ (Pends s a) os bs)
    (shown : b.Shows s right) (stop : b.stop = p.lastMark.index) (strong : ∀ r, b.Binds a r → n ≤ r) :
  Outcome (reduce n right b.first os) s p (fun r q => q.bare = p.bare ∧ ∃ bs' b', close bs' b' = close bs b ∧
    Ready a n bs' b' ∧ List.Forall₂ (Pends s a) r.2.2 bs' ∧ b'.Shows s r.1 ∧ b'.first = r.2.1) fun _ _ => False
  := by
  induction stacked generalizing p b right with
  | nil => exact ⟨rfl, [], b, rfl, ⟨by simp, strong⟩, .nil, shown, rfl⟩
  | @cons o o' os bs pending stacked ih =>
    rw [reduce]
    split
    · rename_i binds
      refine outcome_bind.2 ((pending.complete plain shown stop 0).mono ?_ fun _ _ => id)
      rintro e p₁ ⟨alike, shows, stop'⟩
      rw [pending.start]
      have rest := ih (b := .binary o'.1 o'.2 b) shows stop' (fun r binds' => by
        rwa [← binds_unique pending.binds binds'])
      exact rest.mono (fun r q ends => ⟨ends.1.trans alike, ends.2⟩) fun _ _ => id
    · rename_i weak
      refine ⟨rfl, o' :: bs, b, rfl, ⟨?_, strong⟩, .cons pending stacked, shown, rfl⟩
      rintro l t ⟨⟩ q binds'
      rw [← binds_unique pending.binds binds']
      exact Nat.lt_of_not_le weak

theorem reduceAll_outcome (plain : s.delegate = none) {start : Token}
    (stacked : List.Forall₂ (Pends s a) os bs) (shown : b.Shows s right) (stop : b.stop = p.lastMark.index) :
  Outcome (reduceAll right start os) s p (fun e q => q.bare = p.bare ∧ (close bs b).Shows s e) fun _ _ => False
  := by
  induction stacked generalizing p b right start with
  | nil => exact ⟨rfl, shown⟩
  | cons pending stacked ih =>
    refine outcome_bind.2 ((pending.complete plain shown stop _).mono ?_ fun _ _ => id)
    rintro e p₁ ⟨alike, shows, stop'⟩
    exact (ih shows stop').mono (fun e q ends => ⟨ends.1.trans alike, ends.2⟩) fun _ _ => id

end

/-! ### Sequences of operands -/

section

variable (s : Settings) (x : Parse Tree) (p : Parser)

/-- From `p` on operands are read as `x` delivers them, with binary operators between them; nodes may be
built before an operator is passed. -/
inductive Reads : List (Token ⊕ Operand) → Parser → Prop
  | first {e : Tree} {q : Parser} :
    inherit x s p = .ok e q → Reads [.inr ⟨e, p.lookahead, q.lastMark.index⟩] q
  | next {l : List (Token ⊕ Operand)} {q q₁ q₂ q₃ q₄ : Parser} {t : Token} {e : Tree} :
    Reads l q → (∃ n, Binds p.context.allowIn q.lookahead n) → q₁.bare = q.bare →
    advance s q₁ = .ok t q₂ → notTarget s q₂ = .ok () q₃ → isolate x s q₃ = .ok e q₄ →
    Reads (l ++ [.inl t, .inr ⟨e, q₃.lookahead, q₄.lastMark.index⟩]) q₄

/-- The failures of a sequence of operands: an operand fails, or the step over an operator, or there are
more operators than the source can have. -/
inductive Breaks : Failure → Parser → Prop
  | first {f : Failure} {q : Parser} : inherit x s p = .error f q → Breaks f q
  | operator {l : List (Token ⊕ Operand)} {q q₁ q₂ : Parser} {f : Failure} :
    Reads s x p l q → (∃ n, Binds p.context.allowIn q.lookahead n) → q₁.bare = q.bare →
    advance s q₁ = .error f q₂ → Breaks f q₂
  | operand {l : List (Token ⊕ Operand)} {q q₁ q₂ q₃ q₄ : Parser} {t : Token} {f : Failure} :
    Reads s x p l q → (∃ n, Binds p.context.allowIn q.lookahead n) → q₁.bare = q.bare →
    advance s q₁ = .ok t q₂ → notTarget s q₂ = .ok () q₃ → isolate x s q₃ = .error f q₄ → Breaks f q₄
  | long {l : List (Token ⊕ Operand)} {q : Parser} :
    Reads s x p l q → 2 * (s.source.text.length + 1) < l.length → Breaks .unfinished q

/-- All operands and operators have been read and put together. -/
def Brackets (e : Tree) (p' : Parser) : Prop :=
  ∃ (b : Bracketing) (q : Parser), Reads s x p b.inorder q ∧ (∀ n, ¬ Binds p.context.allowIn q.lookahead n) ∧
    p'.bare = q.bare ∧ b.Respects p.context.allowIn ∧ b.Shows s e

variable {s x p} {l : List (Token ⊕ Operand)} {q : Parser}

theorem Reads.allowIn [Restores true x] (reads : Reads s x p l q) : q.context.allowIn = p.context.allowIn
  := by
  have kept {q q' : Parser} (restored : q.Restored true s q') : q'.context.allowIn = q.context.allowIn :=
    (congrArg Context.allowIn restored.frame :)
  induction reads with
  | first run => exact kept (Moves.leads run)
  | @next _ q q₁ _ _ _ _ _ _ _ alike passed settled run ih =>
    have same : q₁.context = q.context := (congrArg Parser.context alike :)
    rw [kept (Moves.leads run), kept (Moves.leads settled), kept (Moves.leads passed), same, ih]

theorem binaryRest_outcome (plain : s.delegate = none) [Restores true x] {bs : List (Bracketing × Token)}
    {o : Operand} {os : List PendingOperand} (reads : Reads s x p (close bs (.operand o)).inorder q)
    (stacked : List.Forall₂ (Pends s p.context.allowIn) os bs) (stop : o.stop = q.lastMark.index)
    (respects : (close bs (.operand o)).Respects p.context.allowIn) (n : Nat)
    (enough : 2 * (s.source.text.length + 2) < (close bs (.operand o)).inorder.length + 2 * n) :
  Outcome (binaryRest x o.tree o.first os n) s q (Brackets s x p) (Breaks s x p)
  := by
  induction n generalizing q bs o os with
  | zero => exact .long reads (by omega)
  | succ n ih =>
    have allowIn := reads.allowIn
    unfold binaryRest
    simp only [outcome_bind, outcome_get, outcome_pure, allowIn]
    split
    · rename_i ends
      refine (reduceAll_outcome plain stacked (b := .operand o) rfl stop).mono ?_ (fun _ _ => False.elim)
      have last := precedence_eq_zero_iff.1 (eq_of_beq ends)
      exact fun e p' closed => ⟨_, q, reads, last, closed.1, respects, closed.2⟩
    · rename_i operator
      simp only [outcome_bind]
      refine (reduce_outcome plain stacked (b := .operand o) rfl stop (fun _ => False.elim)).mono ?_
        (fun _ _ => False.elim)
      rintro ⟨left, start, os'⟩ q₁ ⟨alike, bs', b', closed, ready, stacked', shown, first⟩
      have binds := binds_of_precedence (by simpa using operator)
      have operates : ∃ n, Binds p.context.allowIn q.lookahead n := ⟨_, binds⟩
      refine (Outcome.run advance).mono ?_ fun f q₂ fails => .operator reads operates alike fails
      intro t q₂ passed
      refine (Outcome.run notTarget).mono ?_ fun f q₃ fails => by cases fails
      intro _ q₃ settled
      refine (Outcome.run (isolate x)).mono ?_ fun f q₄ fails =>
        .operand reads operates alike passed settled fails
      intro right q₄ run
      obtain rfl : t = q.lookahead :=
        (advance_eq_ok (k := true) t passed).1.trans (congrArg Parser.lookahead alike :)
      have order : (close bs' (.binary b' q.lookahead (.operand ⟨right, q₃.lookahead, q₄.lastMark.index⟩))).inorder =
          (close bs' b').inorder ++ _ := inorder_close rfl
      rw [closed] at order
      refine @ih _ ((b', q.lookahead) :: bs') ⟨right, q₃.lookahead, q₄.lastMark.index⟩ _ ?_
        (.cons ⟨shown, first.symm, rfl, binds⟩ stacked') rfl
        (ready.respects_close binds _ (closed ▸ respects)) ?_
      · rw [close, order]
        exact .next reads operates alike passed settled run
      · rw [close, order, List.length_append]
        change _ < _ + 2 + 2 * n
        omega

/-- For every sequence of operands: the tree has them in their order, operators inside others respect
precedence and the left comes first among equals, each node covers its operands, and nothing fails but
what reads operands and tokens.  The word `in` is an operator exactly if it is allowed to be. -/
theorem binary_brackets (n : Nat) (s : Settings) (p : Parser) (plain : s.delegate = none) :
  (∀ e p', binary (productions n) s p = .ok e p' → Brackets s (exponentiation (productions n)) p e p') ∧
  (∀ f p', binary (productions n) s p = .error f p' → Breaks s (exponentiation (productions n)) p f p') ∧
  ∀ t : Token, t.kind = .keyword → t.value = .text "in" →
    (precedence p.context.allowIn t ≠ 0 ↔ p.context.allowIn = true)
  := by
  have steady : Restores true (exponentiation (productions n)) := by unfold exponentiation; infer_instance
  have ends : Outcome (binary (productions n)) s p (Brackets s (exponentiation (productions n)) p)
      (Breaks s (exponentiation (productions n)) p) := by
    simp only [outcome_bind, outcome_get, outcome_pure, outcome_read]
    refine (Outcome.run (inherit _)).mono ?_ fun f q fails => .first fails
    intro e q run
    have begun : Reads s _ p (close [] (.operand ⟨e, p.lookahead, q.lastMark.index⟩)).inorder q := .first run
    exact binaryRest_outcome plain begun .nil rfl
      trivial _ (by change _ < 1 + _; omega)
  refine ⟨fun e p' run => ?_, fun f p' run => ?_, fun t kind value => ?_⟩
  · rwa [Outcome, run] at ends
  · rwa [Outcome, run] at ends
  · rw [precedence, kind, value]
    cases p.context.allowIn <;> decide

def mixed : Settings := { source := { text := "a-b*c-d" }, range := true }

/-- The parser before an expression with operators of different precedence. -/
def beforeMixed : Parser :=
  { start mixed.source.text 0 with
    cursor := { index := 1 }
    lookahead :=
      { kind := .identifier, value := .text "a", line := 1, lineStart := 0, start := 0, stop := 1 } }

theorem binary_brackets_mixed :
  ∃ e p', binary (productions 1) mixed beforeMixed = .ok e p' ∧
    Brackets mixed (exponentiation (productions 1)) beforeMixed e p'
  := by
  have found : ends (binary (productions 1) mixed) beforeMixed (fun _ p' => p'.lookahead.kind == .finish) = true :=
    by decide +kernel
  obtain ⟨e, p', run, -⟩ := exists_of_ends found
  exact ⟨e, p', run, (binary_brackets 1 mixed beforeMixed rfl).1 e p' run⟩

end

end Parse

end ScriptLens
