import JBLang.Emitted.TakenReferences

/-!
# Pointers that are stored in fields

`p->f->…->g = q` should record the block of `q` in the object that has the field `g`, and release
what was recorded for the field before. The code records it in the block of `p`, as far as this
has room, and releases nothing.
-/

namespace JBLang.Emitted

open JBLang.Base JBLang.Types JBLang.Codegen JBLang.Ast JBLang.Runtime

/-! ### The source -/

/-- A field behind a variable: the fields on the way, and the one that is written. -/
structure FieldPath where
  root : Ident
  inner : List Ident
  last : Ident

namespace FieldPath

/-- All fields. -/
def fields (l : FieldPath) : List Ident := l.inner ++ [l.last]

/-- The field behind the variable. -/
def first (l : FieldPath) : Ident := l.inner.headD l.last

/-- The fields behind the first one. -/
def rest (l : FieldPath) : List Ident := l.fields.tail

theorem fields_eq (l : FieldPath) : l.fields = l.first :: l.rest := by
  obtain ⟨root, _ | ⟨f, inner⟩, last⟩ := l <;> rfl

/-- The tokens of a field. -/
def tokens (l : FieldPath) : List Token := .ident l.root :: partTokens (l.fields.map .arrow)

/-- The parse tree of a field. -/
def tree (l : FieldPath) : Expr := applyParts (.ident l.root) (l.fields.map .arrow)

/-- The parse tree of a store. -/
def storeTree (l : FieldPath) (q : Ident) : Expr := .assign l.tree (.ident q)

/-- The object that has the field. -/
def owner (l : FieldPath) : Path :=
  (Path.var l.root.text).steps (l.inner.map fun f ↦ .arrow f.text)

/-- A store is read as an assignment to the whole path. -/
theorem parse_storeTree (l : FieldPath) (q : Ident) :
    parse (l.tokens ++ [.equal, .ident q]) = some (l.storeTree q) := by
  have hfits : fits 0 l.tree = true := fits_applyParts rfl fun _ _ ↦ Nat.zero_le _
  have hclosed : closed l.tree = true := by
    refine closed_applyParts rfl fun part _ ↦ ?_
    cases part <;> simp [LoadPart.level, Expr.openLevel, precedence]
  have hopen : l.tree.openLevel = precedence 1 := openLevel_applyParts _ rfl _
  have htokens : l.tokens ++ [.equal, .ident q] = (l.storeTree q).tokens := by
    rw [storeTree, Expr.tokens, tree, tokens_applyParts]
    rfl
  rw [htokens]
  refine parse_complete ?_ ?_
  · rw [storeTree, fits, hfits]
    rfl
  · rw [storeTree, closed, hclosed, hopen]
    rfl

end FieldPath

/-! ### The code -/

section

variable (ts : TypeSystem) (st : SymbolTable)

/-- The first field is printed as a field. A method of the class is not, and no field of a variable
whose class has virtual methods is. -/
def FieldPath.isPrinted (l : FieldPath) : Bool :=
  beforeFirst "->" (memberAccess { symbolTable := st, typeSystem := ts } l.root.text l.first.text) =
    some l.root.text

/-- The statement behind the counting. -/
def storeLine (l : FieldPath) (q : Ident) : Line :=
  if l.isPrinted ts st then .store (exprText ts st l.tree) l.owner (.arrow l.last.text) q.text
  else .effect (exprText ts st l.tree ++ " = " ++ q.text)

/-- The code of a store. -/
def storeLines (l : FieldPath) (q : Ident) : List Line :=
  retainLines st (exprText ts st l.tree) q.text ++ [storeLine ts st l q]

end

variable {ts : TypeSystem} {st : SymbolTable} {l : FieldPath} {q : Ident}

theorem arrow_not_mem (name : Ident) : '-' ∉ name.text :=
  name.isWord.not_mem (by decide)

/-- A field that is printed is one of the variable, and anything else has no arrow. -/
theorem memberAccess_arrow (ts : TypeSystem) (h : NamedTable st) (base name : Ident) :
    let text := memberAccess { symbolTable := st, typeSystem := ts } base.text name.text
    (∃ path : Str, text = base.text ++ "->" ++ path) ∨ '-' ∉ text ∧ isIdentifier text = false := by
  dsimp only
  have hcolon : ∀ text : Str, ':' ∈ text → isIdentifier text = false := fun text hmem ↦
    not_identifier_of_mem hmem (by decide)
  rcases memberAccess_cases { symbolTable := st, typeSystem := ts } base.text name.text with
    ⟨path, -, htext⟩ | ⟨var, hvar, htext | htext⟩
  · rw [htext, List.append_assoc]
    exact .inl ⟨_, rfl⟩
  · rw [htext]
    refine .inr ⟨?_, hcolon _ (by simp)⟩
    simp [arrow_not_mem]
  · have hword : '-' ∉ var.type.structName := (h.lookupSymbol hvar).1.type.structName.not_mem (by decide)
    rw [htext]
    refine .inr ⟨?_, hcolon _ (by simp)⟩
    simp [arrow_not_mem, hword]

theorem beforeFirst_arrow {text : Str} (h : '-' ∉ text) (t : Str) :
    beforeFirst "->" (text ++ ("->" ++ t)) = some text := by
  refine (beforeFirst_skip h ['>'] _).trans ?_
  simp [beforeFirst, List.isPrefixOf]

theorem beforeFirst_no_arrow {text : Str} (h : '-' ∉ text) : beforeFirst "->" text = none :=
  beforeFirst_of_not_mem h ['>']

/-- The text of a field. -/
theorem FieldPath.exprText_tree (h : NamedTable st) (l : FieldPath) : exprText ts st l.tree =
    memberAccess { symbolTable := st, typeSystem := ts } l.root.text l.first.text ++
      ((l.rest.map .arrow).map (LoadPart.text ts st)).flatten := by
  have hfirst : isIdentifier (exprText ts st (.pointerMember (.ident l.root) l.first)) = false :=
    apply_not_identifier (e := .ident l.root) rfl (.arrow l.first)
  rw [tree, l.fields_eq]
  exact exprText_applyParts h hfirst rfl _

theorem retainLines_of_counted (h : NamedTable st) (left : Str)
    (hq : (countedName st q.text).isSome) :
    retainLines st left q.text = match beforeFirst "->" left with
      | some pre => (countedName st pre).toList.map (.incFor q.text)
      | none => [.inc q.text] := by
  have hname := countedName_of_isSome h hq
  rw [countedName] at hname
  obtain ⟨var, hvar, hvarname⟩ := Option.map_eq_some_iff.mp hname
  rw [retainLines, hvar]
  dsimp only
  rw [hvarname]
  cases beforeFirst "->" left with
  | none => rfl
  | some pre =>
    dsimp only
    rw [countedName]
    cases pointerVar (st.lookupSymbol pre) <;> rfl

/-- Where the first field is printed, the increment is recorded in the block of the variable. -/
theorem retainLines_of_isPrinted (h : NamedTable st) (hl : l.isPrinted ts st = true)
    (hroot : (countedName st l.root.text).isSome) (hq : (countedName st q.text).isSome) :
    retainLines st (exprText ts st l.tree) q.text = [.incFor q.text l.root.text] := by
  have hbefore : beforeFirst "->" (exprText ts st l.tree) = some l.root.text := by
    rw [l.exprText_tree h]
    rcases memberAccess_arrow ts h l.root l.first with ⟨path, htext⟩ | ⟨harrow, -⟩
    · rw [htext, List.append_assoc, List.append_assoc, beforeFirst_arrow (arrow_not_mem l.root)]
    · rw [FieldPath.isPrinted, beforeFirst_no_arrow harrow] at hl
      cases hl
  rw [retainLines_of_counted h _ hq, hbefore]
  dsimp only
  rw [countedName_of_isSome h hroot]
  rfl

/-- Where it is not, no increment is recorded in a block. -/
theorem retainLines_of_not_isPrinted (h : NamedTable st) (hl : l.isPrinted ts st = false)
    (hq : (countedName st q.text).isSome) :
    retainLines st (exprText ts st l.tree) q.text = [.inc q.text] ∨
      retainLines st (exprText ts st l.tree) q.text = [] := by
  rcases memberAccess_arrow ts h l.root l.first with ⟨path, htext⟩ | ⟨harrow, hname⟩
  · rw [FieldPath.isPrinted, htext, List.append_assoc,
      beforeFirst_arrow (arrow_not_mem l.root)] at hl
    simp at hl
  · rw [retainLines_of_counted h _ hq, l.exprText_tree h]
    cases hrest : l.rest with
    | nil =>
      left
      simp only [List.map_nil, List.flatten_nil, List.append_nil]
      rw [beforeFirst_no_arrow harrow]
    | cons f rest =>
      right
      simp only [List.map_cons, List.flatten_cons, LoadPart.text, List.append_assoc]
      rw [beforeFirst_arrow harrow]
      dsimp only
      rw [countedName, h.lookup_none hname]
      rfl

/-! ### Runs of the visitor -/

/-- A store writes its lines. -/
theorem visit_store {s : VState} (hs : Named s) (hpass : s.firstPass = false) (l : FieldPath)
    (q : Ident) :
    Post (visitStmt ⟨true⟩ (.exprStmt (l.storeTree q))) s fun _ s' ↦ s' = wrote s
      (linesText s.symbolTable.scopes.length (storeLines s.typeSystem s.symbolTable l q)) := by
  have hpure : isPure l.tree = true := isPure_applyParts rfl _
  have hfree : isCallFree (l.storeTree q) = true := by
    rw [FieldPath.storeTree, isCallFree, isCallFree_of_isPure hpure]
    rfl
  have hname : isIdentifier (exprText s.typeSystem s.symbolTable l.tree) = false := by
    by_contra hname
    obtain ⟨r, hr⟩ := exprText_eq_identifier _ _ (isCallFree_of_isPure hpure) (by simpa using hname)
    have hnil := (applyParts_eq_ident hr).1
    rw [l.fields_eq] at hnil
    cases hnil
  have hnone := hs.symbols.lookup_none hname
  have hcast : castText s.typeSystem s.symbolTable (exprText s.typeSystem s.symbolTable l.tree)
      (exprText s.typeSystem s.symbolTable (.ident q)) = q.text := by
    rw [castText, hnone]
    rfl
  have htext : exprText s.typeSystem s.symbolTable (l.storeTree q) =
      exprText s.typeSystem s.symbolTable l.tree ++ " = " ++ q.text := by
    rw [FieldPath.storeTree, exprText, hcast]
  rw [visitStmt]
  refine (visitExprStmt_callFree hs hpass hfree).mono fun _ s' hs' ↦ ?_
  rw [hs', effectLines, htext, FieldPath.storeTree, countLines, countLines_of_isPure hpure,
    countLines_of_isPure rfl, hcast, assignLines, countedName, hnone, storeLines,
    linesText_append, linesText_append _ _ [storeLine _ _ _ _], storeLine]
  split <;> simp [linesText, Line.text, pointerVar]

/-! ### What should be recorded -/

/-- The block `b` is stored in a field of `c` that held `old` before: its reference is recorded in
`c`, and what was recorded there for `old` is gone. -/
structure Recorded (heap : RCState) (c b old : Nat) (heap' : RCState) : Prop where
  taken : heap'.countOf b = heap.countOf b + 1 -
    if old ∈ (heap.header c).toFree ∧ rcHeaderOf old 0 = b then 1 else 0
  records : ∀ x, (heap'.header x).toFree =
    if x = c then (heap.header c).toFree.erase old ++ [rcPayload b] else (heap.header x).toFree
  lost : old ∈ (heap.header c).toFree → rcHeaderOf old 0 ≠ b →
    rcHeaderOf old 0 ∉ heap'.live ∨
      heap'.countOf (rcHeaderOf old 0) = heap.countOf (rcHeaderOf old 0) - 1

/-- The effect of a store: the field of `c` has the value of `b`, which is recorded. -/
def StoresReference (c b : Nat) (field : Str) (w : World) (σ : CState) : Prop :=
  σ.world.memory (rcPayload c) (.field field) = rcPayload b ∧
    Recorded w.heap c b (w.memory (rcPayload c) (.field field)) σ.world.heap

section

variable {heap : RCState} {o b c old : Nat}

/-- What the runtime does for an increment with an owner is what should be recorded if and only if
the owner is the object that is written, has room, and has nothing recorded for the old value. -/
theorem recorded_iff (hold : old ∈ (heap.header c).toFree → rcHeaderOf old 0 ∈ heap.live) :
    Recorded heap c b old ((heap.setCount b (heap.countOf b + 1)).addOwned o (rcPayload b)) ↔
      o = c ∧ (heap.header c).idx < toFreeSlots ∧ old ∉ (heap.header c).toFree := by
  have hcount : ((heap.setCount b (heap.countOf b + 1)).addOwned o (rcPayload b)).countOf =
      Function.update heap.countOf b (heap.countOf b + 1) := by
    rw [addOwned_countOf, setCount_countOf]
  have hroom : ((heap.setCount b (heap.countOf b + 1)).header o).idx = (heap.header o).idx := by
    rw [RefcountHeader.idx, setCount_toFree, RefcountHeader.idx]
  have htoFree := addOwned_toFree (heap.setCount b (heap.countOf b + 1)) o (rcPayload b)
  simp only [setCount_toFree, hroom] at htoFree
  constructor
  · intro hrecorded
    have hnone : old ∉ (heap.header c).toFree := by
      intro hmem
      by_cases hb : rcHeaderOf old 0 = b
      · have htaken := hrecorded.taken
        rw [hcount, Function.update_self, if_pos ⟨hmem, hb⟩] at htaken
        omega
      · rcases hrecorded.lost hmem hb with hfreed | hlost
        · exact hfreed (hold hmem)
        · rw [hcount, Function.update_of_ne hb] at hlost
          omega
    have hrecords := hrecorded.records c
    rw [if_pos rfl, List.erase_of_not_mem hnone, htoFree c] at hrecords
    split at hrecords
    · next h =>
      obtain ⟨rfl, hslot⟩ := h
      exact ⟨rfl, hslot, hnone⟩
    · simp at hrecords
  · rintro ⟨rfl, hslot, hnone⟩
    refine ⟨?_, fun x ↦ ?_, fun hmem ↦ absurd hmem hnone⟩
    · rw [hcount, Function.update_self, if_neg fun h ↦ hnone h.1]
      omega
    · rw [htoFree x, List.erase_of_not_mem hnone]
      simp only [hslot, and_true]

end

/-! ### Executions -/

section

variable {platform : Platform} {callee : Callee} {σ : CState} {o b c : Nat} {refs : Nat → Nat}

theorem isFixed_steps {path : Path} (h : path.isFixed = true) (fields : List Ident) :
    (path.steps (fields.map fun f ↦ .arrow f.text)).isFixed = true := by
  induction fields generalizing path with
  | nil => exact h
  | cons f fields ih => exact ih (show (Path.select path (.arrow f.text)).isFixed = true from h)

/-- The lines of a store that is printed. -/
theorem performs_store_iff (h : NamedTable st) (hl : l.isPrinted ts st = true)
    (hroot : (countedName st l.root.text).isSome) (hq : (countedName st q.text).isSome)
    (hheap : Releasing [] σ.world.heap.live refs σ.world.heap) (ho : o ∈ σ.world.heap.live)
    (hb : b ∈ σ.world.heap.live) (hc : c ∈ σ.world.heap.live)
    (hrootValue : HasValue σ.env l.root.text (rcPayload o))
    (hqValue : HasValue σ.env q.text (rcPayload b))
    (howner : Denotes platform σ l.owner (rcPayload c)) :
    Performs platform callee (storeLines ts st l q) σ (StoresReference c b l.last.text σ.world) ↔
      o = c ∧ (σ.world.heap.header c).idx < toFreeSlots ∧
        σ.world.memory (rcPayload c) (.field l.last.text) ∉ (σ.world.heap.header c).toFree := by
  have hinc := incRefCount_owner hb (hheap.inRange b hb) ho (hheap.inRange o ho)
  have howner' : Denotes platform (σ.called (.inc (rcPayload b) (rcPayload o))
      ((σ.world.heap.setCount b (σ.world.heap.countOf b + 1)).addOwned o (rcPayload b)))
      l.owner (rcPayload c) := by
    refine howner.congr (isFixed_steps rfl _) rfl rfl fun w hw ↦ hw.imp_right ?_
    rintro ⟨bytes, a, hlog, hfreed⟩
    exact ⟨bytes, a, (List.mem_cons.mp hlog).resolve_left nofun, hfreed⟩
  have hqValue' : HasValue (σ.called (.inc (rcPayload b) (rcPayload o))
      ((σ.world.heap.setCount b (σ.world.heap.countOf b + 1)).addOwned o (rcPayload b))).env
      q.text (rcPayload b) := hqValue
  have hold : σ.world.memory (rcPayload c) (.field l.last.text) ∈ (σ.world.heap.header c).toFree →
      rcHeaderOf (σ.world.memory (rcPayload c) (.field l.last.text)) 0 ∈ σ.world.heap.live :=
    fun hmem ↦ hheap.balanced.owned_live c hc _ (List.mem_map_of_mem hmem)
  rw [storeLines, retainLines_of_isPrinted h hl hroot hq, storeLine, if_pos hl,
    List.cons_append, List.nil_append, performs_cons fun _ ↦ lineStep_incFor hqValue hrootValue hinc,
    performs_cons fun _ ↦ lineStep_store _ howner' hqValue', performs_nil, ← recorded_iff hold]
  constructor
  · exact fun hstored ↦ hstored.2
  · exact fun hrecorded ↦ ⟨by simp [World.store, Part.selector], hrecorded⟩

/-- Where the field is not printed, nothing is known of what is written. -/
theorem not_performs_of_not_isPrinted (h : NamedTable st) (hl : l.isPrinted ts st = false)
    (hq : (countedName st q.text).isSome)
    (hheap : Releasing [] σ.world.heap.live refs σ.world.heap) (hb : b ∈ σ.world.heap.live)
    (hqValue : HasValue σ.env q.text (rcPayload b)) :
    ¬Performs platform callee (storeLines ts st l q) σ
      (StoresReference c b l.last.text σ.world) := by
  intro hperforms
  have hne := ne_null_of_header (rcHeaderOf_payload (hheap.inRange b hb)) (hheap.inRange b hb)
  have hinc := incRefCount_live hb (hheap.inRange b hb)
  simp only [storeLines, storeLine, hl] at hperforms
  have heffect : ∀ (σ' : CState) (text : Str), LineStep platform callee (.effect text) σ'
      (.done ⟨σ'.env, { σ'.world with memory := fun _ _ ↦ 0 }⟩ ()) :=
    fun σ' _ ↦ ⟨σ'.env, fun _ _ ↦ 0, rfl⟩
  rcases retainLines_of_not_isPrinted h hl hq with hretain | hretain
  · rw [hretain, List.cons_append, List.nil_append,
      performs_cons fun _ ↦ lineStep_inc hqValue hinc] at hperforms
    exact hne (hperforms.of_done (linesStep_last (heffect _ _))).1.symm
  · rw [hretain, List.nil_append] at hperforms
    exact hne (hperforms.of_done (linesStep_last (heffect _ _))).1.symm

end

/-- The code that is written for a store, and when it records what it should: the first field is
printed as one, the written object is the block of the variable at the beginning of the path, this
block has a free slot, and nothing is recorded in it for the value that is overwritten. -/
theorem store_recorded_iff (platform : Platform) (callee : Callee) {s : VState} (hs : Named s)
    (hpass : s.firstPass = false) (l : FieldPath) (q : Ident)
    (hroot : (countedName s.symbolTable l.root.text).isSome)
    (hq : (countedName s.symbolTable q.text).isSome) :
    parse (l.tokens ++ [.equal, .ident q]) = some (l.storeTree q) ∧
    (∀ r s', (visitStmt ⟨true⟩ (.exprStmt (l.storeTree q))).run s = .ok (r, s') →
      s' = wrote s (linesText s.symbolTable.scopes.length
        (storeLines s.typeSystem s.symbolTable l q))) ∧
    ∀ σ refs o b c, Releasing [] σ.world.heap.live refs σ.world.heap → o ∈ σ.world.heap.live →
      b ∈ σ.world.heap.live → c ∈ σ.world.heap.live →
      HasValue σ.env l.root.text (rcPayload o) → HasValue σ.env q.text (rcPayload b) →
      Denotes platform σ l.owner (rcPayload c) →
      (Performs platform callee (storeLines s.typeSystem s.symbolTable l q) σ
        (StoresReference c b l.last.text σ.world) ↔
        l.isPrinted s.typeSystem s.symbolTable = true ∧ o = c ∧
          (σ.world.heap.header c).idx < toFreeSlots ∧
          σ.world.memory (rcPayload c) (.field l.last.text) ∉ (σ.world.heap.header c).toFree) := by
  refine ⟨l.parse_storeTree q, (visit_store hs hpass l q).of_run, ?_⟩
  intro σ refs o b c hheap ho hb hc hrootValue hqValue howner
  cases hl : l.isPrinted s.typeSystem s.symbolTable with
  | true =>
    rw [performs_store_iff hs.symbols hl hroot hq hheap ho hb hc hrootValue hqValue howner]
    simp
  | false =>
    simp only [Bool.false_eq_true, false_and, iff_false]
    exact not_performs_of_not_isPrinted hs.symbols hl hq hheap hb hqValue

private def listP : Ident := ⟨"p".toList, isIdentifier_p⟩

private def listQ : Ident := ⟨"q".toList, isIdentifier_q⟩

private def listNext : Ident := ⟨"next".toList, isIdentifier_next⟩

/-- `p->next = q` -/
theorem store_recorded_iff_next :
    Performs plainPlatform noCallee
      (storeLines behindNodes.typeSystem behindNodes.symbolTable ⟨listP, [], listNext⟩ listQ)
      (sharedState listP.text listQ.text)
      (StoresReference 100 100 listNext.text (sharedState listP.text listQ.text).world) := by
  obtain ⟨refs, hheap, -⟩ := releasing_sharedHeap
  have hiff := (store_recorded_iff plainPlatform noCallee named_behindNodes rfl
    ⟨listP, [], listNext⟩ listQ (by decide +kernel) (by decide +kernel)).2.2
    (sharedState listP.text listQ.text) refs 100 100 100 hheap (by decide) (by decide) (by decide)
    (hasValue_of_denotes (.var (by decide) (lookup_shared_root _ _) : Denotes plainPlatform _ _ _))
    (hasValue_shared_self _ (by decide)) (.var (by decide) (lookup_shared_root _ _))
  exact hiff.mpr ⟨by decide +kernel, rfl, by decide, nofun⟩

/-- `p->next->next = q` writes a field of the block that `p->next` leads to, and records the
reference in the block of `p`. -/
theorem innerStore_misrecorded :
    outputBehindNodes (FieldPath.storeTree ⟨listP, [listNext], listNext⟩ listQ) =
        some ("    runtime_inc_ref_count(q, p);\n    p->next->next = q;\n" : Str) ∧
      Denotes plainPlatform (sharedState listP.text listQ.text)
        (FieldPath.owner ⟨listP, [listNext], listNext⟩) (rcPayload 200) ∧
      ¬Performs plainPlatform noCallee (storeLines behindNodes.typeSystem behindNodes.symbolTable
          ⟨listP, [listNext], listNext⟩ listQ) (sharedState listP.text listQ.text)
        (StoresReference 200 100 listNext.text (sharedState listP.text listQ.text).world) := by
  have hroot : Denotes plainPlatform (sharedState listP.text listQ.text) (.var listP.text)
      (rcPayload 100) := .var (by decide) (lookup_shared_root _ _)
  have howner : Denotes plainPlatform (sharedState listP.text listQ.text)
      (FieldPath.owner ⟨listP, [listNext], listNext⟩) (rcPayload 200) :=
    denotes_steps (by decide) hroot [.arrow listNext.text]
  refine ⟨by decide +kernel, howner, fun hperforms ↦ ?_⟩
  obtain ⟨refs, hheap, -⟩ := releasing_sharedHeap
  rw [performs_store_iff named_behindNodes.symbols (by decide +kernel) (by decide +kernel)
    (by decide +kernel) hheap (o := 100) (by decide) (by decide) (by decide)
    (hasValue_of_denotes hroot) (hasValue_shared_self _ (by decide)) howner] at hperforms
  exact absurd hperforms.1 (by decide)

end JBLang.Emitted
