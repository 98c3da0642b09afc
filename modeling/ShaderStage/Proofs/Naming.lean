import ShaderStage.Proofs.Decorations

/-! # Names

A debug name is a label in the log, which the module shows as an instruction that names an id. Ids
are named when they are taken and never again, so what an emitter knows a value by is what the
module calls it. Names are texts, and a text without zero bytes survives the way there and back.

* `Emitter.Turns.titles`: turns name only the ids that they take, each at most once;
* `Emitter.Legible.name?_of_value`: what the module calls a value;
* `Emitter.Legible.name?_of_code`: what it calls a value that some code computes. -/

namespace ShaderStage

/-! ## The names in a module -/

/-- Distinct keys are looked up wherever they stand. -/
theorem lookup_of_nodup {α β : Type} [DecidableEq α] {l : List (α × β)} (h : (l.map Prod.fst).Nodup)
    {a : α} {b : β} (hmem : (a, b) ∈ l) : l.lookup a = some b := by
  induction l with
  | nil => cases hmem
  | cons e l ih =>
    obtain ⟨a', b'⟩ := e
    obtain ⟨hnot, hrest⟩ := List.nodup_cons.mp h
    rw [lookup_cons_eq_ite]
    rcases List.mem_cons.mp hmem with heq | hin
    · cases heq
      rw [if_pos rfl]
    · rw [if_neg, ih hrest hin]
      rintro rfl
      have hkey := List.mem_map_of_mem (f := Prod.fst) hin
      exact hnot hkey

/-- The table of names and the name of an id say the same. -/
theorem Module.mem_names {m : Module} {id : Id} {text : List UInt8} :
    (id, text) ∈ m.names ↔ m.name? id = some text := by
  have hkey : m.name? id = some text → id ∈ m.nameEntries.map Prod.fst := by
    intro h
    have hmem := List.mem_reverse.mp (mem_of_lookup h)
    exact List.mem_map_of_mem hmem
  simp only [names, List.mem_filterMap, List.mem_mergeSort, List.mem_eraseDups,
    Option.map_eq_some_iff, Prod.mk.injEq]
  constructor
  · rintro ⟨id', -, text', htext, rfl, rfl⟩
    exact htext
  · intro h
    exact ⟨id, hkey h, text, h, rfl, rfl⟩

/-- The name of a result that takes its name from an operand: if the operand has a name that is not
empty, that name with a suffix. -/
def Module.derivedName (m : Module) (operand : Id) (suffix : String) : Option (List UInt8) :=
  match m.name? operand with
  | some (b :: bs) => some (b :: bs ++ Literal.bytesOf suffix)
  | _ => none

/-- A value that is named after an operand has its name, with a suffix. -/
theorem Module.derivedName_eq {m : Module} {operand : Id} {base : String}
    (h : (m.name? operand).getD [] = Literal.bytesOf base) (suffix : String) :
    m.derivedName operand suffix = Literal.label? (suffixed base suffix) := by
  unfold derivedName suffixed Literal.label?
  by_cases hempty : base = ""
  · rw [if_pos hempty, if_pos rfl]
    rw [hempty] at h
    cases hname : m.name? operand with
    | none => rfl
    | some bytes =>
      rw [hname] at h
      cases bytes with
      | nil => rfl
      | cons b bs => cases h
  · have hbytes := mt Literal.bytesOf_eq_nil.mp hempty
    have hne : base ++ suffix ≠ "" := fun heq => hempty (String.append_eq_empty_iff.mp heq).1
    rw [if_neg hempty, if_neg hne, Literal.bytesOf_append, ← h]
    rw [← h] at hbytes
    cases hname : m.name? operand with
    | none =>
      rw [hname] at hbytes
      exact absurd rfl hbytes
    | some bytes =>
      cases bytes with
      | nil =>
        rw [hname] at hbytes
        exact absurd rfl hbytes
      | cons b bs => rfl

/-! ## Labels -/

/-- The id that an instruction names, and the words of the name. -/
def Instruction.label? (i : Instruction) : Option (Id × List Word) :=
  if i.opcode = .name then i.operands.head?.map (·, i.operands.tail) else none

/-- The names among entries, with the ids that have them. -/
def labelsOf (entries : List (Section × Instruction)) : List (Id × List Word) :=
  entries.filterMap (·.2.label?)

section

variable {entries : List (Section × Instruction)} {i : Instruction} {part : Section}

@[simp] theorem labelsOf_append (new new' : List (Section × Instruction)) :
    labelsOf (new ++ new') = labelsOf new ++ labelsOf new' :=
  List.filterMap_append

/-- Nothing is named without a name. -/
theorem labelsOf_eq_nil (h : ∀ e ∈ entries, e.2.opcode ≠ .name) : labelsOf entries = [] :=
  List.filterMap_eq_nil_iff.mpr fun e he => if_neg (h e he)

theorem labelsOf_cons (h : i.opcode ≠ .name) : labelsOf ((part, i) :: entries) = labelsOf entries :=
  List.filterMap_cons_none (if_neg h)

/-- An empty name is not given. -/
theorem labelsOf_titleEntries (id : Id) (text : String) :
    labelsOf (Emitter.titleEntries id text) =
      if text = "" then [] else [(id, Literal.ofString text)] := by
  unfold Emitter.titleEntries
  split <;> rfl

end

namespace Emitter

variable {κ : Kinds} {N : String → Prop} {s s₁ s₂ s₃ s' w : Emitter} {id : Id} {k : Key}
  {pub new new' entries : List (Section × Instruction)} {text : String}

/-- The names in a module are the labels in the log. -/
theorem nameEntries_eq (hw : w.draft.WellFilled) :
    w.toModule.nameEntries =
      (labelsOf w.draft.log.toList).map fun l => (l.1, (Literal.decode l.2).1) := by
  have honly : ∀ part ∈ Section.order, Opcode.name ∈ part.opcodes → part = .names := by decide
  have hread : w.draft.log.toList.filterMap (fun e => e.2.label?) =
      (w.toModule.find .name).filterMap fun p => p.instruction.label? :=
    hw.filterMap_log honly (by decide) fun i h => if_neg h
  rw [labelsOf, hread, List.map_filterMap]
  refine List.filterMap_congr fun p hp => ?_
  have hop : p.instruction.opcode = .name := of_decide_eq_true (List.mem_filter.mp hp).2
  rw [Instruction.label?, if_pos hop]
  cases p.instruction.operands <;> rfl

/-! ## Giving names -/

/-- The values among entries are labelled with what they are known by. Those that are known by no
name have no label, except for variables and constants, which always have one. -/
def Titled (w : Emitter) (entries : List (Section × Instruction)) : Prop :=
  ∀ e ∈ entries, e.2.opcode.shape = .typedResult → ∀ {id b}, e.2.resultId = some id →
    w.bindings.lookup id = some b → ∀ ws, (id, ws) ∈ labelsOf entries ↔
      ws = Literal.ofString b.name ∧ (b.name = "" → e.2.opcode ∈ [.var, .constant])

/-- The later emitter has new entries, which name no ids but their own results, each at most once;
and it knows other ids by what they were known by. -/
structure Titles (s : Emitter) (new : List (Section × Instruction)) (s' : Emitter) : Prop where
  grows : s.draft.Grows s'.draft
  log : s'.draft.log.toList = s.draft.log.toList ++ new
  labels : ((labelsOf new).map Prod.fst).Sublist (new.filterMap (·.2.resultId))
  bindings : ∀ id, id ∉ new.filterMap (·.2.resultId) → s'.bindings.lookup id = s.bindings.lookup id
  titled : s'.Titled new

namespace Titles

theorem refl (s : Emitter) : s.Titles [] s where
  grows := .refl _
  log := (List.append_nil _).symm
  labels := .slnil
  bindings _ _ := rfl
  titled := nofun

/-- Only results of the new entries are named. -/
theorem mem_results (h : s.Titles new s') {ws : List Word} (hl : (id, ws) ∈ labelsOf new) :
    id ∈ new.filterMap (·.2.resultId) :=
  h.labels.subset (List.mem_map_of_mem (f := Prod.fst) hl)

/-- The ids that are named are among those taken. -/
theorem results (h : s.Titles new s') :
    new.filterMap (·.2.resultId) = idsBetween s.draft.ids.taken s'.draft.ids.taken := by
  obtain ⟨new', hlog, -, hresults⟩ := h.grows.log
  obtain rfl : new' = new := List.append_cancel_left (hlog.symm.trans h.log)
  exact hresults

/-- As long as the ids do not wrap, no id is taken twice. -/
theorem trans (h : s₁.Titles new s₂) (h' : s₂.Titles new' s₃) (hwrap : s₃.NoWrap) :
    s₁.Titles (new ++ new') s₃ := by
  have hdisjoint : (new.filterMap (·.2.resultId)).Disjoint (new'.filterMap (·.2.resultId)) := by
    rw [h.results, h'.results]
    exact fun id hid => not_mem_idsBetween (Nat.le_of_lt hwrap) hid
  constructor
  · exact h.grows.trans h'.grows
  · rw [h'.log, h.log, List.append_assoc]
  · rw [labelsOf_append, List.map_append, List.filterMap_append]
    exact h.labels.append h'.labels
  · intro id hid
    rw [List.filterMap_append, List.mem_append, not_or] at hid
    rw [h'.bindings id hid.2, h.bindings id hid.1]
  · intro e he hshape id b hid hb ws
    rw [labelsOf_append, List.mem_append]
    rcases List.mem_append.mp he with he | he
    · have hmem : id ∈ new.filterMap (·.2.resultId) := List.mem_filterMap.mpr ⟨e, he, hid⟩
      rw [h'.bindings id (hdisjoint hmem)] at hb
      rw [← h.titled e he hshape hid hb]
      exact or_iff_left fun hl => hdisjoint hmem (h'.mem_results hl)
    · have hmem : id ∈ new'.filterMap (·.2.resultId) := List.mem_filterMap.mpr ⟨e, he, hid⟩
      rw [← h'.titled e he hshape hid hb]
      exact or_iff_right fun hl => hdisjoint (h.mem_results hl) hmem

/-- A value is defined, and its label follows at once, if it has one. -/
theorem of_value {part : Section} {op : Opcode} {T : Id} {operands : List Word}
    (hshape : op.shape = .typedResult) (hgrows : s.draft.Grows s'.draft)
    (hlog : s'.draft.log.toList =
      s.draft.log.toList ++ (part, ⟨op, T :: id :: operands⟩) :: entries)
    (hresults : entries.filterMap (·.2.resultId) = [])
    (hlabels : ((labelsOf entries).map Prod.fst).Sublist [id])
    (hbindings : ∀ id', id' ≠ id → s'.bindings.lookup id' = s.bindings.lookup id')
    (htitled : ∀ b, s'.bindings.lookup id = some b → ∀ ws, (id, ws) ∈ labelsOf entries ↔
      ws = Literal.ofString b.name ∧ (b.name = "" → op ∈ [.var, .constant])) :
    s.Titles ((part, ⟨op, T :: id :: operands⟩) :: entries) s' := by
  have hname : op ≠ .name := by
    rintro rfl
    cases hshape
  have hid : (Instruction.mk op (T :: id :: operands)).resultId = some id := by
    simp [Instruction.resultId, hshape]
  have hall : ((part, (⟨op, T :: id :: operands⟩ : Instruction)) :: entries).filterMap
      (·.2.resultId) = [id] := by
    simp [hid, hresults]
  constructor
  · exact hgrows
  · exact hlog
  · rw [hall, labelsOf_cons hname]
    exact hlabels
  · intro id' hid'
    rw [hall, List.mem_singleton] at hid'
    exact hbindings id' hid'
  · intro e he _ id' b hid' hb ws
    rw [labelsOf_cons hname]
    rcases List.mem_cons.mp he with rfl | he
    · cases hid.symm.trans hid'
      exact htitled b hb ws
    · have hmem : id' ∈ entries.filterMap (·.2.resultId) := List.mem_filterMap.mpr ⟨e, he, hid'⟩
      rw [hresults] at hmem
      cases hmem

/-- A value that is recorded with the text it is labelled with. -/
theorem of_labelled (part : Section) {op : Opcode} {T : Id} {operands : List Word} {key : Key}
    (hpart : op ∈ part.opcodes) (hop : op ∈ [.var, .constant])
    (hdraft : s'.draft =
      ((s.define part ⟨op, T :: s.nextId :: operands⟩).label s.nextId text).draft)
    (hbindings : s'.bindings = (s.nextId, ⟨key, text⟩) :: s.bindings) :
    ∃ new, s.Titles new s' := by
  have hshape : op.shape = .typedResult := by
    have hall : ∀ op ∈ [Opcode.var, .constant], op.shape = .typedResult := by decide
    exact hall op hop
  have hlogs : s.Logs [(part, ⟨op, T :: s.nextId :: operands⟩),
      (.names, ⟨.name, s.nextId :: Literal.ofString text⟩)]
      ((s.define part ⟨op, T :: s.nextId :: operands⟩).label s.nextId text) :=
    .trans (.typedResult hpart hshape) (.put (by decide) (by decide))
  refine ⟨_, of_value hshape (hdraft ▸ hlogs.grows) (by rw [hdraft, hlogs.log]) rfl
    (List.Sublist.refl _) (fun id' hid' => ?_) fun b hb ws => ?_⟩
  · rw [hbindings, lookup_cons_eq_ite, if_neg hid']
  · rw [hbindings, List.lookup_cons_self] at hb
    cases hb
    simp [labelsOf, Instruction.label?, hop]

/-- A value in a function that is recorded with a text, and labelled with it unless it is empty. -/
theorem of_named {op : Opcode} {T : Id} {operands : List Word}
    (hpart : op ∈ Section.functions.opcodes) (hshape : op.shape = .typedResult)
    (hop : op ∉ [.var, .constant])
    (hdraft : s₁.draft = (s.define .functions ⟨op, T :: s.nextId :: operands⟩).draft)
    (hothers : ∀ id', id' ≠ s.nextId → s₁.bindings.lookup id' = s.bindings.lookup id') (key : Key)
    (text : String) : ∃ new, s.Titles new (s₁.named s.nextId key text) := by
  have hdefine : s.Logs [(.functions, ⟨op, T :: s.nextId :: operands⟩)] _ :=
    .typedResult hpart hshape
  have htitle := (s₁.record s.nextId key text).logs_title s.nextId text
  have hgrows : s.draft.Grows s₁.draft := hdraft ▸ hdefine.grows
  have hlog : (s₁.named s.nextId key text).draft.log.toList = s.draft.log.toList ++
      (.functions, ⟨op, T :: s.nextId :: operands⟩) :: titleEntries s.nextId text := by
    rw [named, htitle.log]
    show s₁.draft.log.toList ++ _ = _
    rw [hdraft, hdefine.log, List.append_assoc]
    rfl
  have hbindings : (s₁.named s.nextId key text).bindings =
      (s.nextId, ⟨key.normalize, text⟩) :: s₁.bindings :=
    bindings_title (s₁.record s.nextId key text) s.nextId text
  refine ⟨_, of_value hshape (hgrows.trans htitle.grows) hlog ?_ ?_ (fun id' hid' => ?_)
    fun b hb ws => ?_⟩
  · refine List.filterMap_eq_nil_iff.mpr fun e he => ?_
    rw [mem_titleEntries he]
    rfl
  · rw [labelsOf_titleEntries]
    split
    · exact List.nil_sublist _
    · exact List.Sublist.refl _
  · rw [hbindings, lookup_cons_eq_ite, if_neg hid', hothers id' hid']
  · rw [hbindings, List.lookup_cons_self] at hb
    cases hb
    rw [labelsOf_titleEntries]
    by_cases htext : text = "" <;> simp [htext, hop]

end Titles

/-- Entries that define no values, whatever becomes of the tables. -/
theorem Logs.titles (h : s.Logs new s₁)
    (hlabels : ((labelsOf new).map Prod.fst).Sublist (new.filterMap (·.2.resultId)))
    (hnew : ∀ e ∈ new, e.2.opcode.shape ≠ .typedResult) (hdraft : s'.draft = s₁.draft)
    (hbindings : ∀ id, id ∉ new.filterMap (·.2.resultId) →
      s'.bindings.lookup id = s.bindings.lookup id) : s.Titles new s' where
  grows := hdraft ▸ h.grows
  log := hdraft ▸ h.log
  labels := hlabels
  bindings := hbindings
  titled e he hshape := absurd hshape (hnew e he)

/-- Entries that neither define values nor name anything. -/
theorem Logs.titles_of_plain (h : s.Logs new s₁)
    (hnew : ∀ e ∈ new, e.2.opcode ≠ .name ∧ e.2.opcode.shape ≠ .typedResult)
    (hdraft : s'.draft = s₁.draft) (hbindings : s'.bindings = s.bindings) : s.Titles new s' := by
  refine h.titles ?_ (fun e he => (hnew e he).2) hdraft fun id _ => by rw [hbindings]
  rw [labelsOf_eq_nil fun e he => (hnew e he).1]
  exact List.nil_sublist _

/-- One instruction that neither defines a value nor names anything. -/
theorem Logs.titles_of_single {part : Section} {op : Opcode} {operands : List Word}
    (h : s.Logs [(part, ⟨op, operands⟩)] s₁) (hname : op ≠ .name) (hshape : op.shape ≠ .typedResult)
    (hdraft : s'.draft = s₁.draft) (hbindings : s'.bindings = s.bindings) :
    ∃ new, s.Titles new s' :=
  ⟨_, h.titles_of_plain (List.forall_mem_singleton.mpr ⟨hname, hshape⟩) hdraft hbindings⟩

/-! ## Names of types -/

/-- A structure type is named once, and its members have names of another kind. -/
theorem labels_structured (s : Emitter) (name : String) (members : Members) (ids : List Id) :
    ∃ new, s.Logs new (s.structured name members ids) ∧
      ((labelsOf new).map Prod.fst).Sublist (new.filterMap (·.2.resultId)) ∧
      ∀ e ∈ new, e.2.opcode.shape ≠ .typedResult := by
  have hmembers : ∀ op ∈ [Opcode.memberDecorate, .memberName],
      op ≠ .name ∧ op.shape = .noResult := by decide
  obtain ⟨new, hlogs, hnew⟩ := s.logs_structured name members ids
  have hlabels : labelsOf ((.globals, ⟨.typeStruct, s.nextId :: ids⟩) ::
      titleEntries s.nextId name ++ new) = labelsOf (titleEntries s.nextId name) := by
    have hstruct : Opcode.typeStruct ≠ .name := by decide
    rw [List.cons_append, labelsOf_cons hstruct, labelsOf_append,
      labelsOf_eq_nil fun e he => (hmembers _ (hnew e he)).1, List.append_nil]
  refine ⟨_, hlogs, ?_, ?_⟩
  · rw [hlabels, labelsOf_titleEntries]
    split
    · exact List.nil_sublist _
    · exact List.singleton_sublist.mpr (List.mem_filterMap.mpr ⟨_, List.mem_cons_self, rfl⟩)
  · simp only [List.cons_append, List.forall_mem_cons, List.forall_mem_append]
    refine ⟨by decide, fun e he => ?_, fun e he => ?_⟩
    · rw [mem_titleEntries he]
      show Opcode.name.shape ≠ _
      decide
    · rw [(hmembers _ (hnew e he)).2]
      decide

/-- Of the types, only structures are named. -/
theorem Enters.labels (h : s.Enters k id s') :
    ∃ new, s.Logs new s' ∧ id ∈ new.filterMap (·.2.resultId) ∧
      ((labelsOf new).map Prod.fst).Sublist (new.filterMap (·.2.resultId)) ∧
      ∀ e ∈ new, e.2.opcode.shape ≠ .typedResult := by
  have hplain : ∀ {new : List (Section × Instruction)},
      (∀ e ∈ new, e.2.opcode ∈ .typeImage :: .capability :: .decorate :: Opcode.interned) →
      ((labelsOf new).map Prod.fst).Sublist (new.filterMap (·.2.resultId)) ∧
        ∀ e ∈ new, e.2.opcode.shape ≠ .typedResult := by
    have hall : ∀ op ∈ Opcode.typeImage :: .capability :: .decorate :: Opcode.interned,
        op ≠ .name ∧ op.shape ≠ .typedResult := by decide
    intro new hnew
    rw [labelsOf_eq_nil fun e he => (hall _ (hnew e he)).1]
    exact ⟨List.nil_sublist _, fun e he => (hall _ (hnew e he)).2⟩
  have hresult : ∀ {new : List (Section × Instruction)}, s.Logs new s' →
      id ∈ new.filterMap (·.2.resultId) := by
    obtain ⟨d, new, hlogs, hd, hid, -⟩ := h.logs
    intro new' hlogs'
    rw [hlogs'.results]
    exact hlogs.mem_idsBetween hd hid
  suffices ∃ new, s.Logs new s' ∧ ((labelsOf new).map Prod.fst).Sublist
      (new.filterMap (·.2.resultId)) ∧ ∀ e ∈ new, e.2.opcode.shape ≠ .typedResult by
    obtain ⟨new, hlogs, hnew⟩ := this
    exact ⟨new, hlogs, hresult hlogs, hnew⟩
  cases h with
  | @simple k op operands h =>
    have hinterned : ∀ op ∈ Opcode.interned, op ∈ Section.globals.opcodes ∧ op.shape = .result := by
      decide
    obtain ⟨hpart, hshape⟩ := hinterned op h.mem_interned
    obtain ⟨new, hlogs, hnew⟩ := s.logs_foldl_declare k.canon.capability?.toList
    rw [← prepare_eq] at hlogs
    rw [← (s.remarks_prepare k.canon).nextId_eq]
    refine ⟨_, hlogs.trans (.result hpart hshape), hplain (List.forall_mem_append.mpr ⟨?_, ?_⟩)⟩
    · intro e he
      obtain ⟨c, rfl⟩ := hnew e he
      simp [Instruction.declaring]
    · exact List.forall_mem_singleton.mpr (by simp [h.mem_interned])
  | matrix4 =>
    refine ⟨_, .trans (.result (by decide) (by decide)) (.put (by decide) (by decide)), hplain ?_⟩
    simp [Opcode.interned]
  | @sampledImage2D storage c hc s₁ hs₁ =>
    have himage : s.Logs
        [(.globals, ⟨.typeImage, [s.nextId, c, dimension2D, 0, 0, 0, 1, 0]⟩)] s₁ :=
      hs₁ ▸ .result (by decide) (by decide)
    refine ⟨_, himage.trans (.result (by decide) (by decide)), hplain ?_⟩
    simp [Opcode.interned]
  | struct hsized hids => exact s.labels_structured _ _ _

/-! ## Names in turns -/

/-- What is noted names only ids that it takes. -/
theorem Notes.titles (h : s.Notes κ pub s') (hs : s.Consistent N) (hwrap : s'.NoWrap) :
    ∃ new, s.Titles new s' := by
  have hnotes : ∀ part ∈ [Section.functions, .decorations, .sources] ++ Section.reserved,
      ∀ op ∈ part.opcodes, op.shape ≠ .typedResult → op ≠ .name := by decide
  have hplain {part : Section} {op : Opcode} {operands : List Word}
      (h : s.Logs [(part, ⟨op, operands⟩)] s') (hname : op ≠ .name)
      (hshape : op.shape ≠ .typedResult) : ∃ new, s.Titles new s' :=
    h.titles_of_single hname hshape rfl h.bindings
  cases h with
  | @abandoned name members storage ids hkey hids =>
    obtain ⟨new, hlogs, hlabels, hnew⟩ := s.labels_structured name members ids
    exact ⟨new, hlogs.titles hlabels hnew rfl fun id _ => by rw [hlogs.bindings]⟩
  | @performed op operands h =>
    have hshape : op.shape ≠ .typedResult := by
      rw [h.spec.2.1]
      decide
    exact hplain (.put h.spec.1 h.spec.2.1) (hnotes .functions (by simp) op h.spec.1 hshape) hshape
  | @function text htext result type =>
    have hlogs : s.Logs [(.functions, ⟨.function, [result, s.nextId, 0, type]⟩),
        (.names, ⟨.name, s.nextId :: Literal.ofString text⟩)] _ :=
      .trans (.typedResult (by decide) (by decide)) (.put (by decide) (by decide))
    -- Nothing is recorded about a function.
    have hunbound := hs.lookup_eq_none (not_allocated_nextId hs.filled (hwrap.of_grows hlogs.grows))
    refine ⟨_, .of_value (by decide) hlogs.grows hlogs.log rfl (List.Sublist.refl _)
      (fun _ _ => rfl) fun b hb => ?_⟩
    cases hunbound.symm.trans hb
  | label => exact hplain (.result (by decide) (by decide)) (by decide) (by decide)
  | capability c =>
    have hop : Opcode.capability ≠ .name ∧ Opcode.capability.shape ≠ .typedResult := by decide
    obtain ⟨new, hlogs, hnew⟩ := s.logs_declare c
    refine ⟨new, hlogs.titles_of_plain (fun e he => ?_) rfl hlogs.bindings⟩
    rw [hnew e he]
    exact hop
  | decoration => exact hplain (.put (by decide) (by decide)) (by decide) (by decide)
  | string => exact hplain (.result (by decide) (by decide)) (by decide) (by decide)
  | @announced part i h =>
    have hshape : i.opcode.shape ≠ .typedResult := by
      rw [h.spec.2]
      decide
    have hpart : part ∈ [Section.functions, .decorations, .sources] ++ Section.reserved := by
      cases h <;> decide
    exact hplain (.put h.spec.1 h.spec.2) (hnotes part hpart _ h.spec.1 hshape) hshape

/-- A turn names only ids that it takes, if it does not rename what it is given. -/
theorem Turn.titles (h : Turn κ s pub s') (hforeign : ¬ κ.foreign) (hs : s.Consistent N)
    (hwrap : s'.NoWrap) : ∃ new, s.Titles new s' := by
  cases h with
  | @type key id s₁ hkey hunknown h =>
    obtain ⟨new, hlogs, hid, hlabels, hnew⟩ := h.labels
    refine ⟨new, hlogs.titles hlabels hnew rfl fun id' hid' => ?_⟩
    have hne : id' ≠ id := fun heq => hid' (heq ▸ hid)
    show List.lookup id' (_ :: s₁.bindings) = _
    rw [lookup_cons_eq_ite, if_neg hne, h.bindings]
  | @constant pool T bits =>
    exact Titles.of_labelled .globals (by decide) (by decide) (s.draft_newConstant T pool bits)
      (s.bindings_newConstant T pool bits)
  | @functionType result =>
    have hlogs : s.Logs [(.globals, ⟨.typeFunction, [s.nextId, result]⟩)] _ :=
      .result (by decide) (by decide)
    exact hlogs.titles_of_single (by decide) (by decide) rfl rfl
  | @value op operands key T text s₁ hop hkey htext hT hs₁ =>
    have hvalues : ∀ op ∈ Section.functions.opcodes, op ≠ .constant := by decide
    have hunlabelled : op ∉ [.var, .constant] := by
      have hspec := hop.spec.2.2
      have hconstant := hvalues op hop.spec.1
      simp only [List.mem_cons, List.not_mem_nil, or_false, not_or] at hspec ⊢
      exact ⟨hspec.1, hconstant⟩
    have hdraft : s₁.draft = (s.define .functions ⟨op, T :: s.nextId :: operands⟩).draft := by
      rcases hs₁ with rfl | rfl <;> rfl
    have hothers : ∀ id', id' ≠ s.nextId → s₁.bindings.lookup id' = s.bindings.lookup id' := by
      intro id' hid'
      rcases hs₁ with rfl | rfl
      · rfl
      · show List.lookup id' (_ :: s.bindings) = _
        rw [lookup_cons_eq_ite, if_neg hid']
    exact Titles.of_named hop.spec.1 hop.spec.2.1 hunlabelled hdraft hothers key text
  | @math key T set hkey hT hset number argument =>
    have hsets : ∀ op ∈ Section.instructionSets.opcodes, op ≠ .name ∧ op.shape ≠ .typedResult := by
      decide
    obtain ⟨new, s₁, hlogs, heq, hnew⟩ := s.logs_importMath
    have himport : s.Titles new s.importMath := by
      refine hlogs.titles_of_plain (fun e he => hsets _ (hnew e he ▸ hlogs.parts e he)) ?_ ?_
      · rw [heq]
      · rw [heq, ← hlogs.bindings]
    have hdraft : (s.importMath.define .functions
        ⟨.extInst, T :: s.importMath.nextId :: [set, number, argument]⟩).draft = _ := rfl
    obtain ⟨new', hnew'⟩ := Titles.of_named (by decide) (by decide) (by decide) hdraft
      (fun _ _ => rfl) key ""
    exact ⟨_, himport.trans hnew' hwrap⟩
  | localVariable => exact Titles.of_labelled .functions (by decide) (by decide) rfl rfl
  | globalVariable => exact Titles.of_labelled .globals (by decide) (by decide) rfl rfl
  | @block struct =>
    have hlogs : s.Logs [(.decorations, ⟨.decorate, [struct, Decoration.block]⟩)] _ :=
      .put (by decide) (by decide)
    exact hlogs.titles_of_single (by decide) (by decide) rfl rfl
  | note h => exact h.titles hs hwrap
  | rename h => exact absurd h hforeign

/-- Turns name only ids that they take, each at most once. -/
theorem Turns.titles (h : s.Turns κ pub s') (hκ : κ.Names N) (hs : s.Consistent N)
    (hwrap : s'.NoWrap) : ∃ new, s.Titles new s' := by
  induction h with
  | refl => exact ⟨[], .refl s⟩
  | tail hturns hturn ih =>
    have hwrap₁ := hwrap.of_grows hturn.grows
    obtain ⟨new, hnew⟩ := ih hwrap₁
    have hs₁ := (hturns.sustains hκ hs hwrap₁).consistent
    obtain ⟨new', hnew'⟩ := hturn.titles hκ.foreign hs₁ hwrap
    exact ⟨_, hnew.trans hnew' hwrap⟩

/-! ## Reading names -/

/-- The module is one in which names can be read: the ids have not wrapped, no id was named twice,
values are named as they are known, and none of their names has a zero byte. -/
structure Legible (w : Emitter) : Prop where
  filled : w.draft.WellFilled
  noWrap : w.NoWrap
  labels : ((labelsOf w.draft.log.toList).map Prod.fst).Nodup
  titled : w.Titled w.draft.log.toList
  texts : ∀ {id b}, w.bindings.lookup id = some b → NulFree b.name

namespace Legible

/-- A label is the name of its id. -/
theorem name?_of_label (hw : w.Legible) {ws : List Word}
    (h : (id, ws) ∈ labelsOf w.draft.log.toList) :
    w.toModule.name? id = some (Literal.decode ws).1 := by
  rw [Module.name?, nameEntries_eq hw.filled]
  refine lookup_of_nodup ?_ (List.mem_reverse.mpr (List.mem_map.mpr ⟨_, h, rfl⟩))
  rw [List.map_reverse, List.nodup_reverse, List.map_map]
  exact hw.labels

/-- An id without a label has no name. -/
theorem name?_eq_none (hw : w.Legible)
    (h : ∀ ws, (id, ws) ∉ labelsOf w.draft.log.toList) : w.toModule.name? id = none := by
  rw [Option.eq_none_iff_forall_ne_some]
  intro text htext
  have hmem := List.mem_reverse.mp (mem_of_lookup htext)
  rw [nameEntries_eq hw.filled] at hmem
  obtain ⟨⟨id', ws⟩, hws, heq⟩ := List.mem_map.mp hmem
  cases heq
  exact h ws hws

/-- An id that was named has that name. -/
theorem name?_of_has (hw : w.Legible) (htext : NulFree text)
    (h : w.Has .names ⟨.name, id :: Literal.ofString text⟩) :
    w.toModule.name? id = some (Literal.bytesOf text) := by
  have hlabel : (id, Literal.ofString text) ∈ labelsOf w.draft.log.toList :=
    List.mem_filterMap.mpr ⟨_, h, rfl⟩
  rw [hw.name?_of_label hlabel, Literal.decode_ofString htext]

/-- A value is called what it is known by; a variable or constant without a name may have an empty
one. -/
theorem name?_of_value (hw : w.Legible) (h : w.Value id k) {b : Binding}
    (hb : w.bindings.lookup id = some b) :
    (w.toModule.name? id).getD [] = Literal.bytesOf b.name := by
  obtain ⟨T, part, i, -, hi, hid, htype⟩ := h.typed
  have hshape : i.opcode.shape = .typedResult := by
    unfold Instruction.resultType at htype
    split at htype
    · assumption
    · cases htype
  have hlabels := hw.titled _ hi hshape hid hb
  have htext := hw.texts hb
  by_cases hlabel : (id, Literal.ofString b.name) ∈ labelsOf w.draft.log.toList
  · rw [hw.name?_of_label hlabel, Literal.decode_ofString htext, Option.getD_some]
  · have hnone : ∀ ws, (id, ws) ∉ labelsOf w.draft.log.toList := by
      intro ws hws
      rw [((hlabels ws).mp hws).1] at hws
      exact hlabel hws
    rw [hlabels, not_and, Classical.not_imp] at hlabel
    rw [hw.name?_eq_none hnone, (hlabel rfl).1]
    rfl

/-- A value that some code computes is called what it is known by. -/
theorem name?_of_code (hw : w.Legible) {op : Opcode} {T : Id} {operands : List Word}
    (hshape : op.shape = .typedResult) (hop : op ∈ bodyOpcodes)
    (h : w.Has .functions ⟨op, T :: id :: operands⟩) {b : Binding}
    (hb : w.bindings.lookup id = some b) : w.toModule.name? id = Literal.label? b.name := by
  have hbody : ∀ op ∈ bodyOpcodes, op ∉ [.var, .constant] := by decide
  have hid : (Instruction.mk op (T :: id :: operands)).resultId = some id := by
    simp [Instruction.resultId, hshape]
  have hlabels := hw.titled _ h hshape hid hb
  unfold Literal.label?
  split
  · rename_i hempty
    exact hw.name?_eq_none fun ws hws => hbody op hop (((hlabels ws).mp hws).2 hempty)
  · rename_i hnamed
    have hlabel := (hlabels _).mpr ⟨rfl, fun hempty => absurd hempty hnamed⟩
    rw [hw.name?_of_label hlabel, Literal.decode_ofString (hw.texts hb)]

end Legible

/-- What turns lead to can be read, if all names that they give can. -/
theorem legible_of_turns {v : Version} (h : (start v).Turns κ pub w) (hκ : κ.Names N)
    (hready : w.Ready κ) (htexts : ∀ text, κ.text text → NulFree text) (hwrap : w.NoWrap) :
    w.Legible := by
  have hstart := consistent_start N v
  obtain ⟨new, hnew⟩ := h.titles hκ hstart hwrap
  have hlog : w.draft.log.toList = new := hnew.log
  refine ⟨(h.sustains hκ hstart hwrap).consistent.filled, hwrap, ?_, ?_, ?_⟩
  · rw [hlog]
    refine hnew.labels.nodup ?_
    rw [hnew.results]
    exact nodup_idsBetween (Nat.le_of_lt hwrap)
  · rw [hlog]
    exact hnew.titled
  · exact fun hb => htexts _ (hready.bindings hb).2

end Emitter

/-! ## Names without zero bytes -/

/-- The name of a constant has no zero bytes. -/
theorem Pool.nulFree_text (pool : Pool) (bits : Word) : NulFree (pool.text bits) := by
  have huint : NulFree "uint_" := by decide
  have hfloat : NulFree "float_" := by decide
  cases pool with
  | uint => exact huint.append (plain_toString _).nulFree
  | float => exact hfloat.append (Binary32.plain_write _).nulFree

/-- Names without zero bytes, given by the emitter alone. -/
abbrev Kinds.nulFree (announced : String → Prop) : Kinds :=
  ⟨fun k => k.type.Named NulFree, fun k => k.type.Named NulFree, NulFree, announced, False⟩

/-- Names that are made of names without zero bytes have none. -/
instance (K : Key → Prop) [KeyKind K] (announced : String → Prop) (foreign : Prop) :
    Kinds.Closed ⟨K, K, NulFree, announced, foreign⟩ where
  bind h := h
  unnamed := show NulFree "" by decide
  constant := Pool.nulFree_text
  read h := h
  loaded h := h.suffixed (by decide)
  extracted index h := by
    show NulFree (extractName _ index)
    rw [extractName_eq]
    exact h.suffixed (nulFree_componentSuffix index)
  cell row col h := h.suffixed (nulFree_cellSuffix row col)
  accessed index h := by
    show NulFree (accessName _ index)
    rw [accessName_eq]
    exact h.suffixed (nulFree_accessSuffix index)
  narrowed h := h.suffixed (by decide)
  localName index h := Method.nulFree_localName h index

end ShaderStage
