import JBLang.Emitted.Executions
import JBLang.Emitted.Functions

/-!
# Rules for executions of translated code

What holds along every execution of a translated block follows from what its single statements
keep. An invariant is a property of the symbol table at a statement and the state the statement is
executed in.
-/

namespace JBLang.Emitted

open JBLang.Base JBLang.Types JBLang.Codegen JBLang.Ast JBLang.Runtime

/-- The execution ends with a result or stops, each in a state with a property. -/
def Ending.Meets {S α : Type} (done : S → α → Prop) (stop : S → Option Fault → Prop) :
    Ending S α → Prop
  | .done s a => done s a
  | .stopped s fault => stop s fault

variable (platform : Platform) (callee : Callee) (stop : World → Option Fault → Prop)

/-- Every execution of the lines ends in a state with a property, or stops as it may. -/
def LinesEnd (ls : List Line) (σ : CState) (Q : CState → Prop) : Prop :=
  ∀ e, LinesStep platform callee ls σ e → e.Meets (fun σ' _ ↦ Q σ') fun σ' ↦ stop σ'.world

/-- Every evaluation of the value ends with a result with a property, or stops as it may. -/
def ValueEnds (value : CValue) (σ : CState) (Q : CState → Nat → Prop) : Prop :=
  ∀ e, Evaluates platform callee value σ e → e.Meets Q fun σ' ↦ stop σ'.world

variable {platform callee stop} {σ : CState} {Q : CState → Prop} {l : Line} {ls ls' : List Line}

theorem linesEnd_nil (hstop : stop σ.world none) (h : Q σ) :
    LinesEnd platform callee stop [] σ Q := by
  rintro e (rfl | rfl)
  · exact h
  · exact hstop

theorem linesEnd_cons (hstop : stop σ.world none) (h : ∀ e, LineStep platform callee l σ e →
      e.Meets (fun σ' _ ↦ LinesEnd platform callee stop ls σ' Q) fun σ' ↦ stop σ'.world) :
    LinesEnd platform callee stop (l :: ls) σ Q := by
  rintro e (rfl | ⟨σ', hline, hrest⟩ | ⟨σ', f, hline, rfl⟩)
  · exact hstop
  · exact h _ hline e hrest
  · exact h _ hline

theorem LinesEnd.append
    (h : LinesEnd platform callee stop ls σ fun σ' ↦ LinesEnd platform callee stop ls' σ' Q) :
    LinesEnd platform callee stop (ls ++ ls') σ Q := by
  induction ls generalizing σ with
  | nil => exact h _ (.inl rfl)
  | cons l ls ih =>
    refine linesEnd_cons (h _ (.inl rfl)) fun e he ↦ ?_
    cases e with
    | done σ' a => exact ih fun e hrest ↦ h e (.inr (.inl ⟨σ', he, hrest⟩))
    | stopped σ' f => exact h _ (.inr (.inr ⟨σ', f, he, rfl⟩))

theorem LinesEnd.mono {Q' : CState → Prop} (h : LinesEnd platform callee stop ls σ Q)
    (hQ : ∀ σ', Q σ' → Q' σ') : LinesEnd platform callee stop ls σ Q' := by
  intro e he
  have hend := h e he
  cases e with
  | done σ' a => exact hQ σ' hend
  | stopped σ' f => exact hend

/-- Lines that have one outcome each. -/
theorem LinesEnd.of_performs (h : Performs platform callee ls σ Q)
    (hstop : ∀ w, stop w none) : LinesEnd platform callee stop ls σ Q := by
  intro e he
  rcases h.2 e he with ⟨σ', rfl⟩ | ⟨σ', rfl, hQ⟩
  · exact hstop σ'.world
  · exact hQ

variable {value : CValue} {cond : Str}

theorem ValueEnds.mono {R R' : CState → Nat → Prop}
    (h : ValueEnds platform callee stop value σ R) (hR : ∀ σ' v, R σ' v → R' σ' v) :
    ValueEnds platform callee stop value σ R' := by
  intro e he
  have hend := h e he
  cases e with
  | done σ' v => exact hR σ' v hend
  | stopped σ' f => exact hend

/-- A name that has a value. -/
theorem valueEnds_var {y : Str} {v : Nat} {R : CState → Nat → Prop} (hy : HasValue σ.env y v)
    (h : R σ v) : ValueEnds platform callee stop (.var y) σ R := by
  intro e he
  rw [(evaluates_var hy).mp he]
  exact h

/-- A declaration with a value. -/
theorem linesEnd_declare {type : Ty} {x : Str} (hstop : stop σ.world none)
    (h : ValueEnds platform callee stop value (σ.declare x)
      fun σ' v ↦ LinesEnd platform callee stop ls (σ'.set x v) Q) :
    LinesEnd platform callee stop (.declare type x (some value) :: ls) σ Q := by
  refine linesEnd_cons hstop ?_
  rintro _ ⟨e, heval, rfl⟩
  cases e with
  | done σ' v => exact h _ heval
  | stopped σ' f => exact h _ heval

/-- An assignment. -/
theorem linesEnd_assign {x : Str} (hstop : stop σ.world none)
    (h : ValueEnds platform callee stop value σ
      fun σ' v ↦ LinesEnd platform callee stop ls (σ'.set x v) Q) :
    LinesEnd platform callee stop (.assign x value :: ls) σ Q := by
  refine linesEnd_cons hstop ?_
  rintro _ ⟨e, heval, rfl⟩
  cases e with
  | done σ' v => exact h _ heval
  | stopped σ' f => exact h _ heval

/-- A declaration without a value. -/
theorem linesEnd_declare_none {type : Ty} {x : Str} (hstop : stop σ.world none)
    (h : LinesEnd platform callee stop ls (σ.declare x) Q) :
    LinesEnd platform callee stop (.declare type x none :: ls) σ Q := by
  refine linesEnd_cons hstop ?_
  rintro _ rfl
  exact h

theorem linesEnd_empty (hstop : stop σ.world none) (h : LinesEnd platform callee stop ls σ Q) :
    LinesEnd platform callee stop (.empty :: ls) σ Q := by
  refine linesEnd_cons hstop ?_
  rintro _ rfl
  exact h

/-- An expression statement. -/
theorem linesEnd_expr (hstop : stop σ.world none) (h : ValueEnds platform callee stop value σ
      fun σ' _ ↦ LinesEnd platform callee stop ls σ' Q) :
    LinesEnd platform callee stop (.expr value :: ls) σ Q := by
  refine linesEnd_cons hstop ?_
  rintro _ ⟨e, heval, rfl⟩
  cases e with
  | done σ' v => exact h _ heval
  | stopped σ' f => exact h _ heval

/-! ### Statements of a block -/

mutual

/-- Every simple statement has a property, at the symbol table it is translated with. -/
def PStmt.Everywhere (ts : TypeSystem) (P : SymbolTable → PStmt → Prop) (st : SymbolTable) :
    PStmt → Prop
  | .block body | .ifThen _ body | .loop _ body => bodyEverywhere ts P st.enterScope body
  | .ifElse _ body otherwise =>
    bodyEverywhere ts P st.enterScope body ∧ bodyEverywhere ts P st.enterScope otherwise
  | .decl t x value => P st (.decl t x value)
  | .assign x value => P st (.assign x value)
  | .call f args => P st (.call f args)
  | .ret value => P st (.ret value)

/-- Every simple statement of a block has a property. -/
def bodyEverywhere (ts : TypeSystem) (P : SymbolTable → PStmt → Prop) (st : SymbolTable) :
    List PStmt → Prop
  | [] => True
  | p :: ps => p.Everywhere ts P st ∧ bodyEverywhere ts P (p.after ts st) ps

end

mutual

/-- Two properties hold everywhere together. -/
theorem PStmt.Everywhere.and {ts : TypeSystem} {P P' : SymbolTable → PStmt → Prop} :
    ∀ {p : PStmt} {st : SymbolTable}, p.Everywhere ts P st → p.Everywhere ts P' st →
      p.Everywhere ts (fun st p ↦ P st p ∧ P' st p) st
  | .block _, _, h, h' | .ifThen _ _, _, h, h' | .loop _ _, _, h, h' => bodyEverywhere_and h h'
  | .ifElse _ _ _, _, h, h' => ⟨bodyEverywhere_and h.1 h'.1, bodyEverywhere_and h.2 h'.2⟩
  | .decl _ _ _, _, h, h' | .assign _ _, _, h, h' | .call _ _, _, h, h' | .ret _, _, h, h' => ⟨h, h'⟩

theorem bodyEverywhere_and {ts : TypeSystem} {P P' : SymbolTable → PStmt → Prop} :
    ∀ {ps : List PStmt} {st : SymbolTable}, bodyEverywhere ts P st ps → bodyEverywhere ts P' st ps →
      bodyEverywhere ts (fun st p ↦ P st p ∧ P' st p) st ps
  | [], _, _, _ => trivial
  | _ :: _, _, h, h' => ⟨h.1.and h'.1, bodyEverywhere_and h.2 h'.2⟩

end

section Inversion

variable {ts : TypeSystem} {st : SymbolTable} {p : PStmt} {P : SymbolTable → PStmt → Prop}
  {c : CStmt} {code rest : List CStmt} {ps : List PStmt}

theorem everywhere_of_lines (h : p.compile ts st = .lines ls) (hP : p.Everywhere ts P st) :
    P st p := by
  cases p with
  | decl t x value => exact hP
  | assign x value => exact hP
  | call f args => exact hP
  | _ => simp [PStmt.compile] at h

/-- A statement of translated code stands for one of the source, except for the releases at the
end. -/
theorem compileBody_eq_cons (h : c :: rest = compileBody ts st ps) :
    (ps = [] ∧ c = .lines (releaseLines st) ∧ rest = []) ∨
      ∃ p ps', ps = p :: ps' ∧ p.compile ts st = c ∧ rest = compileBody ts (p.after ts st) ps' := by
  cases ps with
  | nil =>
    cases h
    exact .inl ⟨rfl, rfl, rfl⟩
  | cons p ps =>
    cases h
    exact .inr ⟨p, ps, rfl, rfl, rfl⟩

theorem compileBody_eq_ret (h : .ret ls value :: rest = compileBody ts st ps) :
    ∃ e ps', ps = .ret e :: ps' ∧ value = e.compile ts st none ∧
      ls = ownRetains st value ++ releaseLines st := by
  obtain ⟨p, ps, rfl, hp, -⟩ := (compileBody_eq_cons h).resolve_left nofun
  cases p with
  | ret e =>
    cases hp
    exact ⟨e, ps, rfl, rfl, rfl⟩
  | decl t x value => cases value <;> simp [PStmt.compile] at hp
  | _ => simp [PStmt.compile] at hp

theorem compileBody_eq_block (h : .block code :: rest = compileBody ts st ps) :
    ∃ body ps', ps = .block body :: ps' ∧ code = compileBody ts st.enterScope body ∧
      rest = compileBody ts st ps' := by
  obtain ⟨p, ps, rfl, hp, htail⟩ := (compileBody_eq_cons h).resolve_left nofun
  cases p with
  | block body =>
    cases hp
    exact ⟨body, ps, rfl, rfl, htail⟩
  | decl t x value => cases value <;> simp [PStmt.compile] at hp
  | _ => simp [PStmt.compile] at hp

theorem compileBody_eq_branch (h : .branch cond code :: rest = compileBody ts st ps) :
    ∃ e body ps', ps = .ifThen e body :: ps' ∧ code = compileBody ts st.enterScope body ∧
      rest = compileBody ts st ps' := by
  obtain ⟨p, ps, rfl, hp, htail⟩ := (compileBody_eq_cons h).resolve_left nofun
  cases p with
  | ifThen e body =>
    cases hp
    exact ⟨e, body, ps, rfl, rfl, htail⟩
  | decl t x value => cases value <;> simp [PStmt.compile] at hp
  | _ => simp [PStmt.compile] at hp

theorem compileBody_eq_branchElse {code' : List CStmt}
    (h : .branchElse cond code code' :: rest = compileBody ts st ps) :
    ∃ e body otherwise ps', ps = .ifElse e body otherwise :: ps' ∧
      code = compileBody ts st.enterScope body ∧ code' = compileBody ts st.enterScope otherwise ∧
      rest = compileBody ts st ps' := by
  obtain ⟨p, ps, rfl, hp, htail⟩ := (compileBody_eq_cons h).resolve_left nofun
  cases p with
  | ifElse e body otherwise =>
    cases hp
    exact ⟨e, body, otherwise, ps, rfl, rfl, rfl, htail⟩
  | decl t x value => cases value <;> simp [PStmt.compile] at hp
  | _ => simp [PStmt.compile] at hp

theorem compileBody_eq_loop (h : .loop cond code :: rest = compileBody ts st ps) :
    ∃ e body ps', ps = .loop e body :: ps' ∧ cond = pureText ts st e ∧
      code = compileBody ts st.enterScope body ∧ rest = compileBody ts st ps' := by
  obtain ⟨p, ps, rfl, hp, htail⟩ := (compileBody_eq_cons h).resolve_left nofun
  cases p with
  | loop e body =>
    cases hp
    exact ⟨e, body, ps, rfl, rfl, rfl, htail⟩
  | decl t x value => cases value <;> simp [PStmt.compile] at hp
  | _ => simp [PStmt.compile] at hp

end Inversion

/-! ### Invariants -/

/-- What single statements have to keep. -/
structure RunRules (platform : Platform) (callee : Callee) (ts : TypeSystem)
    (P : SymbolTable → PStmt → Prop) (inv : SymbolTable → CState → Prop)
    (returned : World → Nat → Prop) (stop : World → Option Fault → Prop) : Prop where
  cut : ∀ {st σ}, inv st σ → stop σ.world none
  lines : ∀ {st p ls σ}, 1 < st.scopes.length → P st p → p.compile ts st = .lines ls → inv st σ →
    LinesEnd platform callee stop ls σ (inv (p.after ts st))
  ret : ∀ {st value σ}, P st (.ret value) → inv st σ →
    LinesEnd platform callee stop (ownRetains st (value.compile ts st none) ++ releaseLines st) σ
      fun σ' ↦ ValueEnds platform callee stop (value.compile ts st none) σ'
        fun σ'' v ↦ returned σ''.world v
  enter : ∀ {st σ}, inv st σ → inv st.enterScope σ.openScope
  leave : ∀ {st σ}, 1 < st.scopes.length → inv st σ →
    LinesEnd platform callee stop (releaseLines st) σ fun σ' ↦ inv st.exitScope σ'.closeScope

variable {ts : TypeSystem} {P : SymbolTable → PStmt → Prop} {inv : SymbolTable → CState → Prop}
  {returned : World → Nat → Prop}

/-- The end of a block: the invariant of the block around it, or a returned value. -/
def BodyEnd (inv : SymbolTable → CState → Prop) (returned : World → Nat → Prop)
    (stop : World → Option Fault → Prop) (st : SymbolTable) (e : Ending CState (Option Nat)) : Prop :=
  e.Meets (fun σ result ↦ match result with
    | none => inv st.exitScope σ.closeScope
    | some v => returned σ.world v) fun σ ↦ stop σ.world

/-- Along an execution of a block the invariant holds at every statement. -/
theorem RunRules.executes (h : RunRules platform callee ts P inv returned stop)
    {code : List CStmt} {trace : List CState} {e : Ending CState (Option Nat)}
    (hrun : Runs platform callee code σ trace e) {st : SymbolTable} {ps : List PStmt}
    (hcode : code = compileBody ts st ps) (hdepth : 1 < st.scopes.length)
    (hps : bodyEverywhere ts P st ps) (hinv : inv st σ) :
    (∀ σ' ∈ trace, ∃ st', inv st' σ') ∧ BodyEnd inv returned stop st e := by
  have hcons {σ : CState} {st : SymbolTable} (hinv : inv st σ) {trace : List CState}
      (htrace : ∀ σ' ∈ trace, ∃ st', inv st' σ') : ∀ σ' ∈ σ :: trace, ∃ st', inv st' σ' :=
    List.forall_mem_cons.mpr ⟨⟨st, hinv⟩, htrace⟩
  -- All code that the execution comes to is that of statements of the source.
  induction hrun generalizing st ps with
  | nil => cases ps <;> simp [compileBody] at hcode
  | cut => exact ⟨nofun, h.cut hinv⟩
  | lines hlines hrest ih =>
    rcases compileBody_eq_cons hcode with ⟨rfl, hc, rfl⟩ | ⟨p, ps, rfl, hp, htail⟩
    · cases hc
      have hleft : inv st.exitScope _ := h.leave hdepth hinv _ hlines
      have hstop := h.cut hleft
      cases hrest with
      | nil => exact ⟨hcons hinv nofun, hleft⟩
      | cut => exact ⟨hcons hinv nofun, hstop⟩
    · have hafter := h.lines hdepth (everywhere_of_lines hp hps.1) hp hinv _ hlines
      obtain ⟨htrace, hend⟩ := ih htail (by rwa [length_scopes_after]) hps.2 hafter
      rw [BodyEnd, exitScope_after] at hend
      exact ⟨hcons hinv htrace, hend⟩
  | linesStopped hlines =>
    rcases compileBody_eq_cons hcode with ⟨rfl, hc, rfl⟩ | ⟨p, ps, rfl, hp, -⟩
    · cases hc
      exact ⟨hcons hinv nofun, h.leave hdepth hinv _ hlines⟩
    · exact ⟨hcons hinv nofun, h.lines hdepth (everywhere_of_lines hp hps.1) hp hinv _ hlines⟩
  | ret hlines hvalue | valueStopped hlines hvalue =>
    obtain ⟨value, ps, rfl, rfl, rfl⟩ := compileBody_eq_ret hcode
    exact ⟨hcons hinv nofun, h.ret hps.1 hinv _ hlines _ hvalue⟩
  | retStopped hlines =>
    obtain ⟨value, ps, rfl, rfl, rfl⟩ := compileBody_eq_ret hcode
    exact ⟨hcons hinv nofun, h.ret hps.1 hinv _ hlines⟩
  | block hbody hrest ihbody ihrest =>
    obtain ⟨body, ps, rfl, rfl, htail⟩ := compileBody_eq_block hcode
    obtain ⟨hinner, hclosed⟩ := ihbody rfl (Nat.lt_succ_of_lt hdepth) hps.1 (h.enter hinv)
    obtain ⟨houter, hend⟩ := ihrest htail hdepth hps.2 hclosed
    exact ⟨hcons hinv (List.forall_mem_append.mpr ⟨hinner, houter⟩), hend⟩
  | blockReturned hbody ih | blockStopped hbody ih =>
    obtain ⟨body, ps, rfl, rfl, -⟩ := compileBody_eq_block hcode
    obtain ⟨hinner, hend⟩ := ih rfl (Nat.lt_succ_of_lt hdepth) hps.1 (h.enter hinv)
    exact ⟨hcons hinv hinner, hend⟩
  | branch hrun ih =>
    obtain ⟨cond, body, ps, rfl, rfl, rfl⟩ := compileBody_eq_branch hcode
    exact @ih st (.block body :: ps) rfl hdepth hps hinv
  | skip hrun ih =>
    obtain ⟨cond, body, ps, rfl, rfl, htail⟩ := compileBody_eq_branch hcode
    obtain ⟨htrace, hend⟩ := ih htail hdepth hps.2 hinv
    exact ⟨hcons hinv htrace, hend⟩
  | branchThen hrun ih =>
    obtain ⟨cond, body, otherwise, ps, rfl, rfl, rfl, rfl⟩ := compileBody_eq_branchElse hcode
    exact @ih st (.block body :: ps) rfl hdepth ⟨hps.1.1, hps.2⟩ hinv
  | branchElse hrun ih =>
    obtain ⟨cond, body, otherwise, ps, rfl, rfl, rfl, rfl⟩ := compileBody_eq_branchElse hcode
    exact @ih st (.block otherwise :: ps) rfl hdepth ⟨hps.1.2, hps.2⟩ hinv
  | loop hrun ih =>
    obtain ⟨cond, body, ps, rfl, rfl, rfl, rfl⟩ := compileBody_eq_loop hcode
    exact @ih st (.block body :: .loop cond body :: ps) rfl hdepth ⟨hps.1, hps⟩ hinv
  | loopEnd hrun ih =>
    obtain ⟨cond, body, ps, rfl, rfl, rfl, htail⟩ := compileBody_eq_loop hcode
    obtain ⟨htrace, hend⟩ := ih htail hdepth hps.2 hinv
    exact ⟨hcons hinv htrace, hend⟩

/-- The execution of a function's body, from its beginning. -/
theorem RunRules.block (h : RunRules platform callee ts P inv returned stop) {st : SymbolTable}
    {ps : List PStmt} {trace : List CState} {e : Ending CState (Option Nat)}
    (hrun : Runs platform callee [.block (compileBody ts st.enterScope ps)] σ trace e)
    (hscopes : st.scopes ≠ []) (hps : bodyEverywhere ts P st.enterScope ps) (hinv : inv st σ) :
    (∀ σ' ∈ trace, ∃ st', inv st' σ') ∧ e.Meets (fun σ' result ↦ match result with
      | none => inv st σ'
      | some v => returned σ'.world v) fun σ' ↦ stop σ'.world := by
  have hdepth : 1 < st.enterScope.scopes.length := by
    have hpos := List.length_pos_iff.mpr hscopes
    rw [length_enterScope]
    omega
  have hruns {trace e} (hbody : Runs platform callee (compileBody ts st.enterScope ps)
      σ.openScope trace e) := h.executes hbody rfl hdepth hps (h.enter hinv)
  cases hrun with
  | cut => exact ⟨nofun, h.cut hinv⟩
  | block hbody hrest =>
    obtain ⟨htrace, hend⟩ := hruns hbody
    have hend : inv st _ := hend
    cases hrest with
    | nil =>
      rw [List.append_nil]
      exact ⟨List.forall_mem_cons.mpr ⟨⟨st, hinv⟩, htrace⟩, hend⟩
    | cut =>
      rw [List.append_nil]
      exact ⟨List.forall_mem_cons.mpr ⟨⟨st, hinv⟩, htrace⟩, h.cut hend⟩
  | blockReturned hbody =>
    obtain ⟨htrace, hend⟩ := hruns hbody
    exact ⟨List.forall_mem_cons.mpr ⟨⟨st, hinv⟩, htrace⟩, hend⟩
  | blockStopped hbody =>
    obtain ⟨htrace, hend⟩ := hruns hbody
    exact ⟨List.forall_mem_cons.mpr ⟨⟨st, hinv⟩, htrace⟩, hend⟩

end JBLang.Emitted
