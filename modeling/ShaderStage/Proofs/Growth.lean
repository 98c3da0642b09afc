import Mathlib.Data.List.Nodup
import ShaderStage.Proofs.Effects

/-! # Growth

Whatever is emitted, and whether or not it succeeds, the draft only grows: instructions are added
at the end of the log, each in a part of the module that holds such instructions, and the ids taken
meanwhile are exactly the results of the added instructions, in order.

* `Section.opcodes`: the instructions that each part holds;
* `Draft.Grows`, `Draft.WellFilled`: how drafts grow, and what was filled from nothing;
* `nodup_idsBetween`, `not_mem_idsBetween`: no id is taken twice before the ids wrap. -/

namespace ShaderStage

/-- What holds of the opcodes in a list is decided on the list, and not on all words. -/
instance (priority := 2000) Opcode.decidableForallMem (p : Opcode → Prop) [DecidablePred p]
    (ops : List Opcode) : Decidable (∀ op ∈ ops, p op) :=
  List.decidableBAll p ops

/-- The operators of two operands. -/
def Opcode.arithmetic : List Opcode :=
  [.iAdd, .fAdd, .iSub, .fSub, .iMul, .fMul, .uDiv, .sDiv, .fDiv, .vectorTimesScalar,
   .matrixTimesScalar, .vectorTimesMatrix, .matrixTimesVector, .matrixTimesMatrix]

/-- The operators compute a typed result. -/
theorem Opcode.shape_of_mem_arithmetic {op : Opcode} (h : op ∈ Opcode.arithmetic) :
    op.shape = .typedResult := by
  have hall : ∀ op ∈ Opcode.arithmetic, op.shape = .typedResult := by decide
  exact hall op h

/-- The opcodes that a part of a module holds. -/
def Section.opcodes : Section → List Opcode
  | .capabilities => [.capability]
  | .extensions => [.extension]
  | .instructionSets => [.extInstImport]
  | .memoryModel => [.memoryModel]
  | .entryPoints => [.entryPoint]
  | .executionModes => [.executionMode]
  | .sources => [.string, .source, .sourceExtension]
  | .names => [.name, .memberName]
  | .decorations => [.decorate]
  | .memberDecorations => [.memberDecorate]
  | .globals =>
    [.typeVoid, .typeBool, .typeInt, .typeFloat, .typeVector, .typeMatrix, .typeImage,
     .typeSampledImage, .typeArray, .typeStruct, .typePointer, .typeFunction, .constant, .var]
  | .functions =>
    [.function, .label, .var, .load, .store, .accessChain, .compositeConstruct,
     .compositeExtract, .extInst, .ret, .returnValue, .functionEnd] ++ Opcode.arithmetic

/-- The ids handed out by a supply between two counts. -/
def idsBetween (first last : Nat) : List Id :=
  (List.range' first (last - first)).map Id.nth

@[simp] theorem idsBetween_self (n : Nat) : idsBetween n n = [] := by
  simp [idsBetween]

@[simp] theorem idsBetween_succ (n : Nat) : idsBetween n (n + 1) = [Id.nth n] := by
  simp [idsBetween]

/-- Ids are handed out one after the other. -/
theorem idsBetween_append {a b c : Nat} (hab : a ≤ b) (hbc : b ≤ c) :
    idsBetween a b ++ idsBetween b c = idsBetween a c := by
  obtain ⟨m, rfl⟩ := Nat.exists_eq_add_of_le hab
  obtain ⟨n, rfl⟩ := Nat.exists_eq_add_of_le hbc
  have hm : a + m - a = m := by omega
  have hn : a + m + n - (a + m) = n := by omega
  have hmn : a + m + n - a = m + n := by omega
  rw [idsBetween, idsBetween, idsBetween, hm, hn, hmn, ← List.map_append, List.range'_append_1]

/-- The bound below which ids do not wrap. -/
def idLimit : Nat := 4294967295

/-- Before the limit, an id is one more than the number of those before it. -/
theorem Id.toNat_nth {n : Nat} (h : n < idLimit) : (Id.nth n).toNat = n + 1 := by
  unfold idLimit at h
  rw [Id.nth, UInt32.toNat_ofNat']
  omega

/-- Before the limit, different turns give different ids. -/
theorem Id.nth_inj {m n : Nat} (hm : m < idLimit) (hn : n < idLimit)
    (h : Id.nth m = Id.nth n) : m = n := by
  have htoNat := congrArg UInt32.toNat h
  rw [toNat_nth hm, toNat_nth hn] at htoNat
  omega

/-- The ids between two counts, one by one. -/
theorem mem_idsBetween {a b : Nat} {id : Id} :
    id ∈ idsBetween a b ↔ ∃ n, a ≤ n ∧ n < b ∧ id = Id.nth n := by
  simp only [idsBetween, List.mem_map, List.mem_range'_1]
  constructor
  · rintro ⟨n, hn, rfl⟩
    exact ⟨n, hn.1, by omega, rfl⟩
  · rintro ⟨n, ha, hb, rfl⟩
    exact ⟨n, by omega, rfl⟩

/-- No id is handed out twice before the limit. -/
theorem nodup_idsBetween {a b : Nat} (h : b ≤ idLimit) : (idsBetween a b).Nodup := by
  refine List.Nodup.map_on ?_ List.nodup_range'
  intro m hm n hn heq
  rw [List.mem_range'_1] at hm hn
  exact Id.nth_inj (by omega) (by omega) heq

/-- A longer stretch of time has all the ids of a shorter one. -/
theorem mem_idsBetween_of_le {a b c d : Nat} {id : Id} (hid : id ∈ idsBetween a b) (hca : c ≤ a)
    (hbd : b ≤ d) : id ∈ idsBetween c d := by
  obtain ⟨n, ha, hb, rfl⟩ := mem_idsBetween.mp hid
  exact mem_idsBetween.mpr ⟨n, by omega, by omega, rfl⟩

/-- An id that was taken is not taken again before the ids wrap. -/
theorem not_mem_idsBetween {a b c : Nat} {id : Id} (hc : c ≤ idLimit) (hold : id ∈ idsBetween a b) :
    id ∉ idsBetween b c := by
  intro hnew
  obtain ⟨m, -, hm, rfl⟩ := mem_idsBetween.mp hold
  obtain ⟨n, hn, hnc, heq⟩ := mem_idsBetween.mp hnew
  have hmn := Id.nth_inj (by omega) (by omega) heq
  omega

/-! ## Drafts -/

/-- What is added to a section stands at its end. -/
theorem Draft.emitted_emit (d : Draft) (part part' : Section) (i : Instruction) :
    (d.emit part i).emitted part' = d.emitted part' ++ if part = part' then [i] else [] := by
  by_cases h : part = part' <;> simp [emit, emitted, List.filterMap_append, h]

/-- The later draft has what the earlier one has, and more at the end. -/
structure Draft.Grows (d d' : Draft) : Prop where
  version : d'.version = d.version
  closed : d'.ids.closed = d.ids.closed
  taken : d.ids.taken ≤ d'.ids.taken
  log : ∃ new, d'.log.toList = d.log.toList ++ new ∧
    (∀ e ∈ new, e.2.opcode ∈ e.1.opcodes) ∧
    new.filterMap (·.2.resultId) = idsBetween d.ids.taken d'.ids.taken

namespace Draft.Grows

theorem refl (d : Draft) : d.Grows d :=
  ⟨rfl, rfl, Nat.le_refl _, [], by simp⟩

/-- Growth adds up: the logs are appended, and so are the ids that were taken. -/
theorem trans {d₁ d₂ d₃ : Draft} (h₁ : d₁.Grows d₂) (h₂ : d₂.Grows d₃) : d₁.Grows d₃ := by
  obtain ⟨new₁, hlog₁, hpart₁, hids₁⟩ := h₁.log
  obtain ⟨new₂, hlog₂, hpart₂, hids₂⟩ := h₂.log
  refine ⟨h₂.version.trans h₁.version, h₂.closed.trans h₁.closed, Nat.le_trans h₁.taken h₂.taken,
    new₁ ++ new₂, ?_, ?_, ?_⟩
  · rw [hlog₂, hlog₁, List.append_assoc]
  · intro e he
    rcases List.mem_append.mp he with he | he
    · exact hpart₁ e he
    · exact hpart₂ e he
  · rw [List.filterMap_append, hids₁, hids₂, idsBetween_append h₁.taken h₂.taken]

/-- Nothing is taken out of the log. -/
theorem mem_log {d d' : Draft} (h : d.Grows d') {e : Section × Instruction}
    (he : e ∈ d.log.toList) : e ∈ d'.log.toList := by
  obtain ⟨new, hlog, -⟩ := h.log
  rw [hlog]
  exact List.mem_append_left _ he

end Draft.Grows

/-- A draft that was filled from nothing, with its supply of ids still open. -/
structure Draft.WellFilled (d : Draft) : Prop where
  isOpen : d.ids.closed = false
  parts : ∀ e ∈ d.log.toList, e.2.opcode ∈ e.1.opcodes
  results : d.log.toList.filterMap (·.2.resultId) = idsBetween 0 d.ids.taken

namespace Draft

/-- Nothing was taken for an empty draft. -/
theorem wellFilled_empty (v : Version) : WellFilled { version := v } :=
  ⟨rfl, by simp, by simp⟩

/-- A draft stays filled from nothing while it grows. -/
theorem WellFilled.grows {d d' : Draft} (hd : d.WellFilled) (h : d.Grows d') : d'.WellFilled := by
  obtain ⟨new, hlog, hparts, hids⟩ := h.log
  refine ⟨h.closed.trans hd.isOpen, ?_, ?_⟩
  · intro e he
    rw [hlog] at he
    rcases List.mem_append.mp he with he | he
    · exact hd.parts e he
    · exact hparts e he
  · rw [hlog, List.filterMap_append, hd.results, hids, idsBetween_append (Nat.zero_le _) h.taken]

end Draft

namespace Emitter

/-- An instruction without a result takes no id. -/
theorem grows_put (s : Emitter) {part : Section} {i : Instruction} (hpart : i.opcode ∈ part.opcodes)
    (hresult : i.resultId = none) : s.draft.Grows (s.put part i).draft := by
  refine ⟨rfl, rfl, Nat.le_refl _, [(part, i)], ?_, ?_, ?_⟩
  · simp [put, Draft.emit]
  · simpa using hpart
  · simp [put, Draft.emit, hresult]

/-- An instruction with a result takes the next id. -/
theorem grows_define (s : Emitter) {part : Section} {i : Instruction}
    (hpart : i.opcode ∈ part.opcodes) (hresult : i.resultId = some s.nextId) :
    s.draft.Grows (s.define part i).draft := by
  refine ⟨rfl, rfl, Nat.le_succ _, [(part, i)], ?_, ?_, ?_⟩
  · simp [define, Draft.emit]
  · simpa using hpart
  · simp [define, Draft.emit, hresult, nextId, IdSupply.next]

end Emitter

/-! ## Operators -/

namespace Emit

/-- The opcode of an operator is one of the operators of two operands. -/
theorem opcode_mem_arithmetic {op : BinaryOperator} {kind : Arithmetic} {c : Opcode}
    (h : op.opcode kind = .ok c) : c ∈ Opcode.arithmetic := by
  cases op <;> cases kind <;> cases h <;> decide

/-- So is the opcode of a product. -/
theorem product?_mem_arithmetic {l r t : Ty} {c : Opcode} {swap : Bool}
    (h : l.product? r = some (c, t, swap)) : c ∈ Opcode.arithmetic := by
  unfold Ty.product? at h
  split at h
  all_goals first
    | (cases h <;> decide)
    | (split at h <;> cases h; decide)

end Emit

end ShaderStage
