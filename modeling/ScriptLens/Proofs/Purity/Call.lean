import ScriptLens.Proofs.Purity.Sound
import ScriptLens.Proofs.Target.First

/-!
# Call expressions that are noted to have no effects

A call expression is noted anew each time that it has called a function: with whether the flag for
effects is not set at the end of the function.  What is noted in the end speaks of all its calls if the
flag misses no effect in any of them and if each of them is noted with the same.
-/

namespace ScriptLens

/-- The ledger that nothing is looked up in. -/
abbrev Ledger.empty : Ledger where
  names := []
  lasting := nofun
  Sound _ := True
  Holds _ _ := True
  trans _ _ := trivial
  agree _ := trivial
  sound _ _ := trivial

theorem Notes.saysPure_congr {t u : Tree} (same : t.ref = u.ref) (s : Notes) : s.saysPure t = s.saysPure u
  := by rw [saysPure, same, saysPure]

def Callee.isNative : Callee → Bool
  | .object o => o.native.isSome
  | _ => false

/-- Whether a callee is a function of the program. -/
def Callee.isFunction : Callee → Bool
  | .object o => o.native.isNone && o.body.isSome
  | _ => false

namespace Analysis

/-! ### Following some calls in another way -/

/-- The engine that follows the calls at a call expression in a way of their own. -/
def visiting (c : Tree)
    (visit : Nat → Callee → Option Tree → List Value → Receiver → Analysis Value) : Nat → Engine
  | 0 => engine 0
  | n + 1 =>
    { expr := fun t => evalExpr (visiting c visit n) t
      exec := fun t hoisting => execStatement (visiting c visit n) t hoisting
      invoke := fun callee site args this =>
        if site.any fun t => t.ref == c.ref then visit n callee site args this
        else invoke (visiting c visit n) callee site args this
      program := fun t text => runProgram (visiting c visit n) t text }

theorem visiting_invoke (c : Tree) (n : Nat) : visiting c (fun n => invoke (engine n)) n = engine n := by
  induction n with
  | zero => rfl
  | succ n ih =>
    rw [visiting, ih]
    simp only [ite_self]
    rfl

variable {α : Type} {c t : Tree} {F : Notes} {x y : Analysis α}

theorem keeps_empty (x : Analysis α) : Keeps Ledger.empty.Noted x
  := ⟨fun _ => trivial, fun _ => trivial⟩

instance : Noting (keeping Ledger.empty.Noted)
  := ⟨fun _ _ => ⟨keeps_empty _⟩, fun _ _ _ => ⟨keeps_empty _⟩, fun _ _ => ⟨keeps_empty _⟩⟩

instance : Comparing (keeping Ledger.empty.Noted)
  := ⟨fun _ _ => ⟨keeps_empty _⟩⟩

theorem Refines.foresees [Steady x] (refines : Refines x y) : Foresees .empty F x y
  := ⟨keeps_empty x, fun run _ _ => refines _ _ _ run, fun run _ _ => absurd run Steady.steady⟩

/-- However deep a program is followed, the analysis follows the calls at a call expression in a second
way as it does in a first one that refines it. -/
theorem follows_visiting
    {visit visit' : Nat → Callee → Option Tree → List Value → Receiver → Analysis Value}
    (refines : ∀ n callee t args this, t.ref = c.ref →
      Foresees .empty F (visit n callee (some t) args this) (visit' n callee (some t) args this)) (n : Nat) :
  (foresight .empty F).Follows (visiting c visit n) (visiting c visit' n)
  := by
  induction n with
  | zero => exact foresees_stopped
  | succ n ih =>
    refine foresees_step (visiting c visit n) (visiting c visit' n) rfl rfl (fun t => ?_)
      (fun t hoisting => ?_) fun callee site args this => ?_
    · exact foresees_of_related (Congruence.related_evalExpr _ _ _ t)
    · exact foresees_of_related (Congruence.related_statement _ _ _ t hoisting)
    · rw [visiting, visiting]
      dsimp only
      split
      · rename_i here
        cases site with
        | none => cases here
        | some t => exact refines n callee t args this (beq_iff_eq.1 here)
      · exact foresees_of_related (foresees_invoke _ _ callee site args this)

/-! ### The calls at one expression -/

variable {isPure : Bool} {n : Nat} {callee : Callee} {args : List Value} {this : Receiver}

/-- Follows a call, and fails where the flag for effects misses one.  If the call expression is noted to
have no effects in the end, it also fails where this is not noted after the call already. -/
def watchful (c : Tree) (isPure : Bool) (n : Nat) (callee : Callee) (site : Option Tree)
    (args : List Value) (this : Receiver) : Analysis Value := settled do
  let v ← invoke (wary n) callee site args this
  let m ← get
  -- a built-in function is noted before it calls any function
  require (!isPure || callee.isNative && m.session.isPure || callee.isFunction && m.notes.saysPure c)
  return v

/-- Follows a call of something known that is free of effects, and fails at the first effect. -/
def harmlessly (n : Nat) (callee : Callee) (site : Option Tree) (args : List Value) (this : Receiver) :
    Analysis Value := do
  require callee.isHarmless
  invoke (harmless n) callee site args this

theorem watchful_eq_ok {site : Option Tree} {m m' : Machine} {v : Value}
    (run : watchful c isPure n callee site args this m = .ok v m') :
  invoke (wary n) callee site args this m = .ok v m' ∧
    (isPure = true → callee.isNative = true ∧ m'.session.isPure = true ∨
      callee.isFunction = true ∧ m'.notes.saysPure c = true)
  := by
  obtain ⟨w, m1, called, rest⟩ := bind_eq_ok.1 (settled_eq_ok.1 run)
  rw [get_bind] at rest
  obtain ⟨_, m2, passed, ended⟩ := bind_eq_ok.1 rest
  obtain ⟨noted, rfl⟩ := require_eq_ok.1 passed
  cases ended
  refine ⟨called, fun inTheEnd => ?_⟩
  simpa [inTheEnd] using noted

theorem watchful_refines_invoke (site : Option Tree) :
  Refines (watchful c isPure n callee site args this) (invoke (engine n) callee site args this)
  := by
  have related : refinement.Related (invoke (wary n) callee site args this)
    (invoke (engine n) callee site args this) := inferInstance
  exact fun m v m' run => related.rel m v m' (watchful_eq_ok run).1

/-- A call that is watched and noted to have no effects has none. -/
theorem watchful_refines_harmlessly (here : t.ref = c.ref) :
  Refines (watchful c true n callee (some t) args this) (harmlessly n callee (some t) args this)
  := by
  intro m v m' run
  obtain ⟨called, told⟩ := watchful_eq_ok run
  replace told := told rfl
  suffices same : callee.isHarmless = true ∧
      invoke (harmless n) callee (some t) args this m = .ok v m' from
    bind_eq_ok.2 ⟨(), m, require_eq_ok.2 ⟨same.1, rfl⟩, same.2⟩
  cases callee with
  | unknown => simp [Callee.isNative, Callee.isFunction] at told
  | nothing => simp [Callee.isNative, Callee.isFunction] at told
  | object o =>
    simp only [Callee.isNative, Callee.isFunction, Callee.isHarmless, invoke] at called told ⊢
    cases native : o.native with
    | some f =>
      rw [native] at called told
      have pure : m'.session.isPure = true := by simpa using told
      exact sound_callNative (wary n) (harmless n) o f (some t) args this called pure
    | none =>
      rw [native] at called told
      cases isBody : o.body with
      | none =>
        rw [isBody] at told
        simp at told
      | some body =>
        rw [isBody] at called told
        have noted : m'.notes.saysPure t = true := by
          rw [Notes.saysPure_congr here]
          simpa using told
        obtain ⟨saved, m1, w, m2, -, ended, same⟩ := callFunction_harmless (wary n) (harmless n) called
        rw [endCall_noted ended] at noted
        exact ⟨rfl, same noted⟩

/-- If the calls at a call expression can be followed watchfully over the whole analysis of a text, this
is the analysis itself; and if the call expression is noted to have no effects in the end, all its calls
are harmless. -/
theorem calls_harmless_of_saysPure {options : Options} {isQuiet : Bool} {source : Text} {o : Outcome}
    (c : Tree)
    (run : analyzeBy (visiting c (watchful c (o.machine.notes.saysPure c)) patience) options isQuiet source =
      .ok o) :
  analyze options isQuiet source = .ok o ∧
    (o.machine.notes.saysPure c = true →
      analyzeBy (visiting c harmlessly patience) options isQuiet source = .ok o)
  := by
  have steady (b : Bool) (n : Nat) (callee : Callee) (site : Option Tree) (args : List Value)
    (this : Receiver) : Steady (watchful c b n callee site args this) := Steady.settled _
  constructor
  · rw [← analyzeBy_engine, ← visiting_invoke c]
    refine analyzeBy_foresees (c := .empty) (fun _ _ => trivial) (follows_visiting ?_ patience) run
    exact fun n callee t args this _ => (watchful_refines_invoke (some t)).foresees
  · intro noted
    rw [noted] at run
    refine analyzeBy_foresees (c := .empty) (fun _ _ => trivial) (follows_visiting ?_ patience) run
    exact fun n callee t args this here => (watchful_refines_harmlessly here).foresees

/-! ### Two texts -/

/-- A function that is called twice, and calls one that changes a variable of its own. -/
def calledTwice : Text :=
  "function f(a) \x7b g(a); \x7d function g(x) \x7b var z = x; z++; \x7d f(3); f(4);"

def calledTwiceSite : Tree := ((parseScript calledTwice 1).toOption.map (innerCall ·.tree)).getD .null

set_option maxRecDepth 20000 in
theorem calls_harmless_calledTwice :
  ∃ o, analyze {} true calledTwice = .ok o ∧ o.machine.notes.saysPure calledTwiceSite = true ∧
    analyzeBy (visiting calledTwiceSite harmlessly patience) {} true calledTwice = .ok o
  := by
  have found : (analyzeBy (visiting calledTwiceSite (watchful calledTwiceSite true) patience) {} true
      calledTwice).toOption.any (fun o => o.machine.notes.saysPure calledTwiceSite) = true := by
    decide +kernel
  obtain ⟨o, watched, noted⟩ := except_any_eq_true found
  obtain ⟨analyzed, harmless⟩ := calls_harmless_of_saysPure calledTwiceSite (by rw [noted]; exact watched)
  exact ⟨o, analyzed, noted, harmless noted⟩

def lastCallSaysPure (o : Outcome) : Bool :=
  ((o.tree.get .body).items.getLast?).any fun t => o.machine.notes.saysPure (t.get .expression)

set_option maxRecDepth 20000 in
/-- A function that assigns a global variable and then calls a built-in function without effects is
noted to have no effects. -/
theorem saysPure_after_builtin :
  ∃ o, analyze {} true "function f() \x7b g = 1; parseInt('1'); \x7d f();" = .ok o ∧
    lastCallSaysPure o = true ∧ globalValue? o.machine "g" = some (.prim (.num (.ofNat 1)))
  := by
  have found : (analyze {} true "function f() \x7b g = 1; parseInt('1'); \x7d f();").toOption.any
      (fun o => lastCallSaysPure o &&
        decide (globalValue? o.machine "g" = some (.prim (.num (.ofNat 1))))) = true := by
    decide +kernel
  obtain ⟨o, analyzed, values⟩ := except_any_eq_true found
  obtain ⟨noted, assigned⟩ := Bool.and_eq_true_iff.1 values
  exact ⟨o, analyzed, noted, of_decide_eq_true assigned⟩

end Analysis

end ScriptLens
