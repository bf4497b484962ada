import JBLang.Emitted.PointerLoads

/-!
# References that loads take

A pointer that is read from somewhere should be counted when it is stored in a variable. The
emitted code counts it where the load is a bare pointer variable of the same class, and nowhere
else.
-/

namespace JBLang.Emitted

open JBLang.Base JBLang.Types JBLang.Codegen JBLang.Ast JBLang.Runtime

/-! ### What is read and counted -/

/-- The variable at the beginning of a load. -/
def Load.root : Load → Ident
  | .name _ y _ => y
  | .inParens _ inner _ => inner.root

/-- The variable holds a block afterwards, whose count is the only one that has changed. -/
def TakesReference (x : Str) (b : Nat) (heap : RCState) (σ : CState) : Prop :=
  HasValue σ.env x (rcPayload b) ∧ σ.world.heap = heap.setCount b (heap.countOf b + 1)

/-- The variable holds a block afterwards. Its count has been incremented, and then a reference to
what the variable held before has been released. -/
def ReplacesReference (x : Str) (b old : Nat) (heap : RCState) (σ : CState) : Prop :=
  HasValue σ.env x (rcPayload b) ∧
    decRefCount (heap.setCount b (heap.countOf b + 1)) old 0 = .ok σ.world.heap

/-- The load is a bare pointer variable, and not cast to another class. -/
def Load.IsCounted (ts : TypeSystem) (st : SymbolTable) (target : Option Ty) (e : Load) : Prop :=
  ∃ y, e.bare = some y ∧ (countedName st y.text).isSome ∧
    castName ts st y.text target = .var y.text

variable {platform : Platform} {callee : Callee} {ts : TypeSystem} {st : SymbolTable}
  {e : Load} {x : Ident} {σ : CState} {b : Nat} {refs : Nat → Nat}

/-! ### Counted loads -/

variable {y : Ident} {t : TypeSpec}

theorem path_of_bare (h : e.bare = some y) : e.path ts st = .var y.text := by
  rw [e.eq_of_bare h]
  rfl

/-- A declaration with a counted load takes a reference. -/
theorem takes_of_isCounted (h : NamedTable st) (hx : x.text ≠ nilName)
    (he : e.IsCounted ts st (typeOf ts t)) (hne : e.bare ≠ some x)
    (hheap : Releasing [] σ.world.heap.live refs σ.world.heap) (hb : b ∈ σ.world.heap.live)
    (hdenotes : Denotes platform σ (e.path ts st) (rcPayload b)) :
    Performs platform callee (loadDeclaration ts st t x e) σ
      (TakesReference x.text b σ.world.heap) := by
  obtain ⟨y, hbare, hcounted, hcast⟩ := he
  rw [path_of_bare hbare] at hdenotes
  have hy := hasValue_of_denotes hdenotes
  have hyx : y.text ≠ x.text := by
    intro heq
    rw [hbare] at hne
    cases x
    cases y
    cases heq
    exact hne rfl
  have hinc := incRefCount_live hb (hheap.inRange b hb)
  have hcalled : HasValue (σ.called (.inc (rcPayload b) 0)
      (σ.world.heap.setCount b (σ.world.heap.countOf b + 1))).env y.text (rcPayload b) := hy
  rw [loadDeclaration, Load.value, hbare]
  simp only [hcast, ownRetains, countedName_of_isSome h hcounted, Option.toList_some,
    List.map_cons, List.map_nil, List.cons_append, List.nil_append]
  rw [performs_cons fun _ ↦ lineStep_inc hy hinc,
    performs_cons fun _ ↦ lineStep_declare _ hcalled hyx, performs_nil]
  exact ⟨hasValue_setVar_addVar hx _ _, rfl⟩

/-- An owned reference can be released. -/
theorem exists_decRefCount {heap : RCState} {old : Nat}
    (hheap : Releasing [] heap.live refs heap)
    (howned : old = 0 ∨ ∃ a, old = rcPayload a ∧ 0 < refs a) :
    ∃ heap', decRefCount heap old 0 = .ok heap' := by
  rcases howned with rfl | ⟨a, rfl, ha⟩
  · exact ⟨heap, rfl⟩
  · have hp := rcHeaderOf_payload (hheap.inRange a (hheap.balanced.mem_of_refs ha))
    obtain ⟨heap', _, hdec, -⟩ := decRefCountNested_releases heap.bound hp hheap ha (Nat.le_succ _)
    exact ⟨heap', hdec⟩

/-- An assignment of a counted load replaces a reference. -/
theorem replaces_of_isCounted (h : NamedTable st) (hx : x.text ≠ nilName) {old : Nat}
    (hxcounted : (countedName st x.text).isSome)
    (he : e.IsCounted ts st ((st.lookupSymbol x.text).map (·.type)))
    (hheap : Releasing [] σ.world.heap.live refs σ.world.heap) (hb : b ∈ σ.world.heap.live)
    (hdenotes : Denotes platform σ (e.path ts st) (rcPayload b))
    (hold : HasValue σ.env x.text old) (howned : old = 0 ∨ ∃ a, old = rcPayload a ∧ 0 < refs a) :
    Performs platform callee (loadAssignment ts st x e) σ
      (ReplacesReference x.text b old σ.world.heap) := by
  obtain ⟨y, hbare, hcounted, hcast⟩ := he
  rw [path_of_bare hbare] at hdenotes
  have hy := hasValue_of_denotes hdenotes
  have hbound : lookupVar σ.env x.text ≠ none := by
    rw [HasValue, if_neg hx] at hold
    rw [hold]
    exact Option.some_ne_none _
  have hassigned : e.assignedName = some y := by
    rw [e.eq_of_bare hbare]
    rfl
  have hinc := incRefCount_live hb (hheap.inRange b hb)
  -- The block that was held before may be the one that is taken.
  have howned' : old = 0 ∨ ∃ a, old = rcPayload a ∧ 0 < Function.update refs b (refs b + 1) a := by
    refine howned.imp_right ?_
    rintro ⟨a, rfl, ha⟩
    refine ⟨a, rfl, ?_⟩
    by_cases hab : a = b
    · rw [hab, Function.update_self]
      omega
    · rwa [Function.update_of_ne hab]
  obtain ⟨heap', hdec⟩ := exists_decRefCount (hheap.incr hb).settle howned'
  have hold' : HasValue (σ.called (.inc (rcPayload b) 0)
      (σ.world.heap.setCount b (σ.world.heap.countOf b + 1))).env x.text old := hold
  have hy' : HasValue ((σ.called (.inc (rcPayload b) 0) (σ.world.heap.setCount b
      (σ.world.heap.countOf b + 1))).called (.dec old) heap').env y.text (rcPayload b) := hy
  rw [loadAssignment, Load.value, hbare, hassigned]
  simp only [hcast, ownRetains, countedName_of_isSome h hcounted, countedName_of_isSome h hxcounted,
    Option.elim_some, Option.toList_some, List.map_cons, List.map_nil, List.cons_append,
    List.nil_append]
  rw [performs_cons fun _ ↦ lineStep_inc hy hinc, performs_cons fun _ ↦ lineStep_dec hold' hdec,
    performs_cons fun _ ↦ lineStep_assign hy', performs_nil]
  exact ⟨hasValue_setVar hx hbound _, hdec⟩

/-! ### Other loads -/

/-- A value that is no call and no allocation can be evaluated and leaves the world as it is. -/
theorem evaluates_value (target : Option Ty) (text : Str) :
    ∃ v, Evaluates platform callee (e.value ts st target text) σ (.done σ v) := by
  rw [Load.value]
  cases e.bare with
  | some y =>
    obtain ⟨v, hv⟩ := reads_exists σ.env y.text
    rcases castName_cases ts st y.text target with hcast | hcast
    · exact ⟨v, by simpa only [hcast] using .var hv⟩
    · exact ⟨v, by simpa only [hcast] using .parent hv⟩
  | none =>
    obtain ⟨v, addresses, hv⟩ := loads_exists platform σ (e.path ts st)
    exact ⟨v, .load hv⟩

/-- Two blocks, the first with two references. -/
def sharedHeap : RCState := (((rcInit .boot).addBlock 100 56).addBlock 200 56).setCount 100 2

/-- A variable and the root of a load hold the first block, and everything in memory is a pointer
to the second one. -/
def sharedState (root x : Str) : CState where
  env := [[], [(root, some (rcPayload 100)), (x, some (rcPayload 100))]]
  world := ⟨sharedHeap, [], fun _ _ ↦ rcPayload 200⟩

theorem releasing_sharedHeap : ∃ refs, Releasing [] sharedHeap.live refs sharedHeap ∧
    0 < refs 100 := by
  have hstart : Releasing [] (rcInit .boot).live (fun _ ↦ 0) (rcInit .boot) := RCRun.start_sound
  have hfirst := hstart.addBlock (a := 100) (by decide) (by decide) 56
  have hsecond := hfirst.addBlock (a := 200) (by decide) (by decide) 56
  exact ⟨_, hsecond.incr (b := 100) (by decide), by decide⟩

variable {target : Option Ty} {b : Nat}

theorem not_dangling_shared (root x : Str) (hb : b + rcHeaderSize < sizeModulus) :
    ¬(sharedState root x).world.Dangling (rcPayload b) := by
  rintro (hzero | ⟨_, _, hlog, _⟩)
  · exact ne_null_of_header (rcHeaderOf_payload hb) hb hzero
  · cases hlog

theorem lookup_shared_root (root x : Str) :
    lookupVar (sharedState root x).env root = some (some (rcPayload 100)) := by
  simp [sharedState, lookupVar]

theorem lookup_shared_self (root x : Str) :
    lookupVar (sharedState root x).env x = some (some (rcPayload 100)) := by
  by_cases h : x = root
  · simp [sharedState, lookupVar, h]
  · simp [sharedState, lookupVar, List.lookup_cons, beq_false_of_ne h]

theorem hasValue_shared_self (root : Str) {x : Str} (hx : x ≠ nilName) :
    HasValue (sharedState root x).env x (rcPayload 100) := by
  rw [HasValue, if_neg hx]
  exact lookup_shared_self root x

theorem denotes_steps {root x : Str} {path : Path} (hb : b + rcHeaderSize < sizeModulus)
    (h : Denotes platform (sharedState root x) path (rcPayload b)) (parts : List Part) :
    Denotes platform (sharedState root x) (path.steps parts)
      (rcPayload (if parts = [] then b else 200)) := by
  induction parts generalizing path b with
  | nil => exact h
  | cons part parts ih =>
    have hselect : Denotes platform (sharedState root x) (.select path part) (rcPayload 200) :=
      .select h (not_dangling_shared root x hb)
    have hrest := ih (by decide) hselect
    rw [ite_self] at hrest
    exact hrest

theorem Load.path_eq (e : Load) : ∃ parts, e.path ts st = (Path.var e.root.text).steps parts := by
  induction e with
  | name stars y parts =>
    refine ⟨parts.map (LoadPart.step ts st) ++ List.replicate stars .star, ?_⟩
    rw [path, Path.steps, Path.steps, Path.steps, List.foldl_append, root]
  | inParens stars inner parts ih =>
    obtain ⟨parts', hinner⟩ := ih
    refine ⟨parts' ++ (parts.map (LoadPart.step ts st) ++ List.replicate stars .star), ?_⟩
    rw [path, hinner, root]
    simp only [Path.steps, List.foldl_append]

/-- A load leads to one of the two blocks. -/
theorem denotes_shared (hroot : e.root.text ≠ nilName) (x : Str) : ∃ b, (b = 100 ∨ b = 200) ∧
    Denotes platform (sharedState e.root.text x) (e.path ts st) (rcPayload b) := by
  obtain ⟨parts, hparts⟩ : ∃ parts, e.path ts st = (Path.var e.root.text).steps parts := e.path_eq
  have hvar : Denotes platform (sharedState e.root.text x) (.var e.root.text) (rcPayload 100) :=
    .var hroot (lookup_shared_root _ _)
  rw [hparts]
  refine ⟨_, ?_, denotes_steps (by decide) hvar parts⟩
  split <;> simp

/-- A name is incremented only if it is a pointer variable and not cast. -/
theorem isCounted_name {y : Str} (h : ownRetains st (castName ts st y target) ≠ []) :
    (countedName st y).isSome ∧ castName ts st y target = .var y := by
  rcases castName_cases ts st y target with hcast | hcast
  · rw [hcast, ownRetains] at h
    refine ⟨?_, hcast⟩
    cases hcounted : countedName st y with
    | none => exact absurd (by rw [hcounted]; rfl) h
    | some name => rfl
  · rw [hcast] at h
    exact absurd rfl h

theorem isCounted_of_ownRetains {text : Str}
    (h : ownRetains st (e.value ts st target text) ≠ []) : e.IsCounted ts st target := by
  rw [Load.value] at h
  cases hbare : e.bare with
  | none =>
    rw [hbare] at h
    exact absurd rfl h
  | some y =>
    simp only [hbare] at h
    exact ⟨y, hbare, isCounted_name h⟩

theorem setCount_ne (heap : RCState) (b : Nat) : heap ≠ heap.setCount b (heap.countOf b + 1) := by
  intro heq
  have hcount := congrFun (congrArg RCState.countOf heq) b
  rw [setCount_countOf, Function.update_self] at hcount
  omega

/-- If a declaration takes a reference, then its load is counted. -/
theorem isCounted_of_takes (h : NamedTable st) (hx : x.text ≠ nilName)
    (hroot : e.root.text ≠ nilName) (htakes : ∀ b ∈ sharedHeap.live,
      Denotes platform (sharedState e.root.text x.text) (e.path ts st) (rcPayload b) →
      Performs platform callee (loadDeclaration ts st t x e) (sharedState e.root.text x.text)
        (TakesReference x.text b sharedHeap)) : e.IsCounted ts st (typeOf ts t) ∧ e.bare ≠ some x := by
  obtain ⟨b, hb, hdenotes⟩ : ∃ b, (b = 100 ∨ b = 200) ∧
      Denotes platform (sharedState e.root.text x.text) (e.path ts st) (rcPayload b) :=
    denotes_shared hroot x.text
  have hlive : b ∈ sharedHeap.live := by rcases hb with rfl | rfl <;> decide
  have hperforms := htakes b hlive hdenotes
  have hcounted : e.IsCounted ts st (typeOf ts t) := by
    by_contra hnot
    have hnone : ownRetains st (e.value ts st (some (typeOf ts t)) (exprText ts st e.tree)) = [] :=
      by_contra fun hown ↦ hnot (isCounted_of_ownRetains hown)
    simp only [loadDeclaration, hnone, List.nil_append] at hperforms
    obtain ⟨v, hv⟩ : ∃ v, Evaluates platform callee
        (e.value ts st (some (typeOf ts t)) (exprText ts st e.tree))
        ((sharedState e.root.text x.text).declare x.text) (.done _ v) := evaluates_value _ _
    exact setCount_ne _ _ (hperforms.of_done (linesStep_last ⟨_, hv, rfl⟩)).2
  refine ⟨hcounted, fun hbare ↦ ?_⟩
  obtain ⟨y, hy, hname, hcast⟩ := hcounted
  obtain rfl : x = y := Option.some.inj (hbare.symm.trans hy)
  -- The variable is in scope in its own initialiser, where it has no value yet.
  have hvalue := hasValue_shared_self e.root.text hx
  have hinc := incRefCount_live (s := sharedHeap) (b := 100) (by decide) (by decide)
  simp only [loadDeclaration, Load.value, hy, hcast, ownRetains, countedName_of_isSome h hname,
    Option.toList_some, List.map_cons, List.map_nil, List.cons_append, List.nil_append] at hperforms
  rw [performs_cons fun _ ↦ lineStep_inc hvalue hinc] at hperforms
  have hreads : Reads (((sharedState e.root.text x.text).called (.inc (rcPayload 100) 0)
      (sharedHeap.setCount 100 (sharedHeap.countOf 100 + 1))).declare x.text).env x.text 0 := by
    refine .indeterminate hx fun w hw ↦ ?_
    rw [CState.declare, lookupVar_addVar, if_pos rfl] at hw
    cases hw
  have htaken := (hperforms.of_done (linesStep_last ⟨_, .var hreads, rfl⟩)).1
  have hnull : 0 = rcPayload b :=
    (hasValue_setVar_addVar hx 0 (sharedState e.root.text x.text).env).unique htaken
  rcases hb with rfl | rfl <;> exact absurd hnull (by decide)

/-- What an assignment should leave in the shared heap. -/
theorem countOf_of_replaces (hb : b = 100 ∨ b = 200)
    (hreplaces : ReplacesReference x.text b (rcPayload 100) sharedHeap σ) :
    σ.world.heap.countOf b = 2 := by
  have hdec := hreplaces.2
  rcases hb with rfl | rfl
  · rw [decRefCount_shared (by decide) (by decide) (by decide)] at hdec
    rw [← Except.ok.inj hdec]
    rfl
  · rw [decRefCount_shared (by decide) (by decide) (by decide)] at hdec
    rw [← Except.ok.inj hdec]
    rfl

/-- The reference that an assignment takes is that of a variable behind `=`. -/
theorem assignedName_of_ownRetains
    (h : (e.assignedName.elim [] fun y ↦ ownRetains st (castName ts st y.text target)) ≠ []) :
    ∃ y, e.assignedName = some y ∧ (countedName st y.text).isSome ∧
      castName ts st y.text target = .var y.text := by
  cases hname : e.assignedName with
  | none =>
    rw [hname] at h
    exact absurd rfl h
  | some y =>
    rw [hname, Option.elim_some] at h
    exact ⟨y, rfl, isCounted_name h⟩

/-- A variable that stands alone behind `=` but not in the load is followed by a part. -/
theorem denotes_assigned (hassigned : e.assignedName = some y) (hbare : e.bare = none)
    (hroot : e.root.text ≠ nilName) (x : Str) : e.root = y ∧
      Denotes platform (sharedState e.root.text x) (e.path ts st) (rcPayload 200) := by
  obtain ⟨_ | stars, z, _ | ⟨part, parts⟩⟩ | ⟨stars, inner, parts⟩ := e
  · cases hbare
  · have hz : z = y := by
      rw [Load.assignedName] at hassigned
      split at hassigned
      · cases hassigned
      · exact Option.some.inj hassigned
    have hvar : Denotes platform (sharedState z.text x) (.var z.text) (rcPayload 100) :=
      .var hroot (lookup_shared_root _ _)
    exact ⟨hz, denotes_steps (by decide) hvar ((part :: parts).map (LoadPart.step ts st))⟩
  · cases hassigned
  · cases hassigned
  · cases hassigned

/-- Without an increment the counts are those before, or one less. -/
theorem not_replaces_of_uncounted (h : NamedTable st) (hx : x.text ≠ nilName)
    (hb : b = 100 ∨ b = 200) (hxcounted : (countedName st x.text).isSome) {root : Str}
    (hown : (e.assignedName.elim [] fun y ↦ ownRetains st
      (castName ts st y.text ((st.lookupSymbol x.text).map (·.type)))) = []) :
    ¬Performs platform callee (loadAssignment ts st x e) (sharedState root x.text)
      (ReplacesReference x.text b (rcPayload 100) sharedHeap) := by
  intro hperforms
  have hdec := decRefCount_shared (s := sharedHeap) (b := 100) (by decide) (by decide) (by decide)
  simp only [loadAssignment, hown, countedName_of_isSome h hxcounted, Option.toList_some,
    List.map_cons, List.map_nil, List.cons_append, List.nil_append] at hperforms
  rw [performs_cons fun _ ↦ lineStep_dec (hasValue_shared_self root hx) hdec] at hperforms
  obtain ⟨v, hv⟩ : ∃ v, Evaluates platform callee
      (e.value ts st ((st.lookupSymbol x.text).map (·.type)) (e.assignedText ts st x))
      ((sharedState root x.text).called (.dec (rcPayload 100)) _) (.done _ v) :=
    evaluates_value _ _
  have hcount : (sharedHeap.setCount 100 (sharedHeap.countOf 100 - 1)).countOf b = 2 :=
    countOf_of_replaces hb (hperforms.of_done (linesStep_last ⟨_, hv, rfl⟩))
  rcases hb with rfl | rfl <;> exact absurd hcount (by decide)

/-- An increment of the first block does not count the second one. -/
theorem not_replaces_of_other (h : NamedTable st) (hx : x.text ≠ nilName)
    (hxcounted : (countedName st x.text).isSome) (hassigned : e.assignedName = some y)
    (hy : y.text ≠ nilName) (hcounted : (countedName st y.text).isSome)
    (hcast : castName ts st y.text ((st.lookupSymbol x.text).map (·.type)) = .var y.text) :
    ¬Performs platform callee (loadAssignment ts st x e) (sharedState y.text x.text)
      (ReplacesReference x.text 200 (rcPayload 100) sharedHeap) := by
  intro hperforms
  have hvalue : HasValue (sharedState y.text x.text).env y.text (rcPayload 100) := by
    rw [HasValue, if_neg hy]
    exact lookup_shared_root _ _
  have hinc := incRefCount_live (s := sharedHeap) (b := 100) (by decide) (by decide)
  have hdec := decRefCount_shared (s := sharedHeap.setCount 100 (sharedHeap.countOf 100 + 1))
    (b := 100) (by decide) (by decide) (by decide)
  have hvalue' : HasValue ((sharedState y.text x.text).called (.inc (rcPayload 100) 0)
      (sharedHeap.setCount 100 (sharedHeap.countOf 100 + 1))).env x.text (rcPayload 100) :=
    hasValue_shared_self y.text hx
  simp only [loadAssignment, hassigned, Option.elim_some, hcast, ownRetains,
    countedName_of_isSome h hcounted, countedName_of_isSome h hxcounted, Option.toList_some,
    List.map_cons, List.map_nil, List.cons_append, List.nil_append] at hperforms
  rw [performs_cons fun _ ↦ lineStep_inc hvalue hinc,
    performs_cons fun _ ↦ lineStep_dec hvalue' hdec] at hperforms
  obtain ⟨v, hv⟩ : ∃ v, Evaluates platform callee
      (e.value ts st ((st.lookupSymbol x.text).map (·.type)) (e.assignedText ts st x))
      (((sharedState y.text x.text).called (.inc (rcPayload 100) 0) _).called
        (.dec (rcPayload 100)) _) (.done _ v) :=
    evaluates_value _ _
  have hcount : ((sharedHeap.setCount 100 (sharedHeap.countOf 100 + 1)).setCount 100
      ((sharedHeap.setCount 100 (sharedHeap.countOf 100 + 1)).countOf 100 - 1)).countOf 200 = 2 :=
    countOf_of_replaces (.inr rfl) (hperforms.of_done (linesStep_last ⟨_, hv, rfl⟩))
  exact absurd hcount (by decide)

/-- If an assignment replaces a reference, then its load is counted. -/
theorem isCounted_of_replaces (h : NamedTable st) (hx : x.text ≠ nilName)
    (hxcounted : (countedName st x.text).isSome) (hroot : e.root.text ≠ nilName)
    (hreplaces : ∀ b ∈ sharedHeap.live,
      Denotes platform (sharedState e.root.text x.text) (e.path ts st) (rcPayload b) →
      Performs platform callee (loadAssignment ts st x e) (sharedState e.root.text x.text)
        (ReplacesReference x.text b (rcPayload 100) sharedHeap)) :
    e.IsCounted ts st ((st.lookupSymbol x.text).map (·.type)) := by
  by_cases hown : (e.assignedName.elim [] fun y ↦ ownRetains st
      (castName ts st y.text ((st.lookupSymbol x.text).map (·.type)))) = []
  · obtain ⟨b, hb, hdenotes⟩ : ∃ b, (b = 100 ∨ b = 200) ∧
        Denotes platform (sharedState e.root.text x.text) (e.path ts st) (rcPayload b) :=
      denotes_shared hroot x.text
    have hlive : b ∈ sharedHeap.live := by rcases hb with rfl | rfl <;> decide
    exact absurd (hreplaces b hlive hdenotes) (not_replaces_of_uncounted h hx hb hxcounted hown)
  · obtain ⟨y, hassigned, hcounted, hcast⟩ := assignedName_of_ownRetains hown
    cases hbare : e.bare with
    | some z =>
      have hz : e.assignedName = some z := by
        rw [e.eq_of_bare hbare]
        rfl
      obtain rfl : y = z := Option.some.inj (hassigned.symm.trans hz)
      exact ⟨y, hbare, hcounted, hcast⟩
    | none =>
      obtain ⟨rfl, hdenotes⟩ : e.root = y ∧
          Denotes platform (sharedState e.root.text x.text) (e.path ts st) (rcPayload 200) :=
        denotes_assigned hassigned hbare hroot x.text
      exact absurd (hreplaces 200 (by decide) hdenotes)
        (not_replaces_of_other h hx hxcounted hassigned hroot hcounted hcast)

/-! ### Declarations and assignments -/

/-- The code that is written for a declaration and for an assignment of a load. Whatever block the
load denotes, the declaration takes a reference to it if and only if the load is a bare pointer
variable other than the declared one and of no other class; the assignment takes a reference to it
and releases the one to what the variable held if and only if the load is a bare pointer variable
of no other class. -/
theorem load_counts_iff (platform : Platform) (callee : Callee) {s : VState} (hs : Named s)
    (hready : Ready s) (x : Ident) (hx : x.text ≠ nilName) (e : Load)
    (hroot : e.root.text ≠ nilName) :
    (parse e.tokens = some e.tree ∧
      parse (.ident x :: .equal :: e.tokens) = some (e.assignTree x)) ∧
    (∀ t type, resolveTypeText s.typeSystem t.getText = .ok type →
      (∀ r s', (visitStmt ⟨true⟩ (.varDecl (.plain t x) (some e.tree))).run s = .ok (r, s') →
        s' = withTable (wrote s (linesText s.symbolTable.scopes.length
          (loadDeclaration s.typeSystem s.symbolTable t x e)))
          (declareSymbol s.symbolTable x.text (typeOf s.typeSystem t))) ∧
      ((∀ σ refs b, Releasing [] σ.world.heap.live refs σ.world.heap → b ∈ σ.world.heap.live →
        Denotes platform σ (e.path s.typeSystem s.symbolTable) (rcPayload b) →
        Performs platform callee (loadDeclaration s.typeSystem s.symbolTable t x e) σ
          (TakesReference x.text b σ.world.heap)) ↔
        e.IsCounted s.typeSystem s.symbolTable (typeOf s.typeSystem t) ∧ e.bare ≠ some x)) ∧
    ((countedName s.symbolTable x.text).isSome →
      (∀ r s', (visitStmt ⟨true⟩ (.exprStmt (e.assignTree x))).run s = .ok (r, s') →
        s' = wrote s (linesText s.symbolTable.scopes.length
          (loadAssignment s.typeSystem s.symbolTable x e))) ∧
      ((∀ σ refs b old, Releasing [] σ.world.heap.live refs σ.world.heap → b ∈ σ.world.heap.live →
        Denotes platform σ (e.path s.typeSystem s.symbolTable) (rcPayload b) →
        HasValue σ.env x.text old → (old = 0 ∨ ∃ a, old = rcPayload a ∧ 0 < refs a) →
        Performs platform callee (loadAssignment s.typeSystem s.symbolTable x e) σ
          (ReplacesReference x.text b old σ.world.heap)) ↔
        e.IsCounted s.typeSystem s.symbolTable
          ((s.symbolTable.lookupSymbol x.text).map (·.type)))) := by
  obtain ⟨refs, hheap, hrefs⟩ := releasing_sharedHeap
  refine ⟨⟨e.parse_tree, e.parse_assignTree x⟩, fun t type htype ↦ ⟨?_, ?_, ?_⟩,
    fun hxcounted ↦ ⟨?_, ?_, ?_⟩⟩
  · exact (visit_loadDeclaration hs hready htype x e).of_run
  · exact fun htakes ↦ isCounted_of_takes hs.symbols hx hroot fun b hb ↦ htakes _ refs b hheap hb
  · rintro ⟨hcounted, hne⟩ σ refs b hheap hb hdenotes
    exact takes_of_isCounted hs.symbols hx hcounted hne hheap hb hdenotes
  · exact (visit_loadAssignment hs hready.pass x e).of_run
  · exact fun hreplaces ↦ isCounted_of_replaces hs.symbols hx hxcounted hroot fun b hb hdenotes ↦
      hreplaces _ refs b _ hheap hb hdenotes (hasValue_shared_self _ hx) (.inr ⟨100, rfl, hrefs⟩)
  · intro hcounted σ refs b old hheap hb hdenotes hold howned
    exact replaces_of_isCounted hs.symbols hx hxcounted hcounted hheap hb hdenotes hold howned

private def nodeP : Ident := ⟨"p".toList, isIdentifier_p⟩

private def nodeQ : Ident := ⟨"q".toList, isIdentifier_q⟩

private def nextField : Ident := ⟨"next".toList, isIdentifier_next⟩

private def nodePointer : Ty := { base := .struct, isPointer := true, structName := "Node" }

/-- The second pass after `Node* p;` and `Node* q;`. -/
def behindNodes : VState :=
  { symbolTable :=
      declareSymbol (declareSymbol {} nodeP.text nodePointer) nodeQ.text nodePointer }

/-- All types have a size of eight bytes, and all indices are zero. -/
def plainPlatform : Platform := ⟨fun _ ↦ 8, fun _ _ ↦ 0⟩

/-- There are no functions. -/
def noCallee : Callee := fun _ _ _ _ ↦ False

theorem named_behindNodes : Named behindNodes :=
  ⟨named_start.types, (named_start.symbols.addSymbol (t := nodePointer)
    ⟨nodeP.valid, rfl, nofun⟩ rfl).addSymbol (t := nodePointer)
    ⟨nodeQ.valid, rfl, nofun⟩ rfl⟩

theorem ready_behindNodes : Ready behindNodes := by
  have hstart : Tidy {} := ⟨by decide, nofun⟩
  exact ⟨rfl, rfl, (hstart.declareSymbol nodeP (by decide) nodePointer).declareSymbol nodeQ
    (by decide) nodePointer⟩

/-- `q = p` -/
theorem load_counts_iff_variable :
    Performs plainPlatform noCallee
      (loadAssignment behindNodes.typeSystem behindNodes.symbolTable nodeQ (.name 0 nodeP []))
      (sharedState nodeP.text nodeQ.text)
      (ReplacesReference nodeQ.text 100 (rcPayload 100) sharedHeap) := by
  obtain ⟨refs, hheap, hrefs⟩ := releasing_sharedHeap
  have hiff := ((load_counts_iff plainPlatform noCallee named_behindNodes ready_behindNodes nodeQ
    (by decide) (.name 0 nodeP []) (by decide)).2.2 (by decide +kernel)).2
  refine hiff.mpr ⟨nodeP, rfl, by decide +kernel, ?_⟩ _ refs 100 _ hheap (by decide) ?_
    (hasValue_shared_self _ (by decide)) (.inr ⟨100, rfl, hrefs⟩)
  · rfl
  · exact .var (by decide) (lookup_shared_root _ _)

/-- What a statement writes behind the declarations. -/
def outputBehindNodes (e : Expr) : Option Str :=
  ((visitStmt ⟨true⟩ (.exprStmt e)).run behindNodes).toOption.map fun r ↦ r.2.output

/-- `q = p->next` is read as `(q = p)->next`: the block of `p` is counted, and not the one that `q`
then holds. -/
theorem nextLoad_uncounted :
    parse [.ident nodeQ, .equal, .ident nodeP, .arrow, .ident nextField] =
        some (.pointerMember (.assign (.ident nodeQ) (.ident nodeP)) nextField) ∧
      outputBehindNodes (.pointerMember (.assign (.ident nodeQ) (.ident nodeP)) nextField) =
        some ("    runtime_inc_ref_count(p, NULL);\n    runtime_dec_ref_count(q, 0);\n    q = p->next;\n" : Str) ∧
      Denotes plainPlatform (sharedState nodeP.text nodeQ.text)
        (.select (.var nodeP.text) (.arrow nextField.text)) (rcPayload 200) ∧
      ¬Performs plainPlatform noCallee (loadAssignment behindNodes.typeSystem
          behindNodes.symbolTable nodeQ (.name 0 nodeP [.arrow nextField]))
        (sharedState nodeP.text nodeQ.text)
        (ReplacesReference nodeQ.text 200 (rcPayload 100) sharedHeap) := by
  refine ⟨rfl, by decide +kernel, ?_, ?_⟩
  · exact .select (.var (by decide) (lookup_shared_root _ _))
      (not_dangling_shared nodeP.text nodeQ.text (by decide))
  · exact not_replaces_of_other named_behindNodes.symbols (by decide) (by decide +kernel) rfl
      (by decide) (by decide +kernel) rfl

end JBLang.Emitted
