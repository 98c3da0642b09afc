import ShaderStage.Proofs.Definitions
import ShaderStage.Proofs.Semantics.Method

/-! # Well-typed methods run

Values have the shapes of types, and a well-typed method that starts from a store of the right
shapes runs to its end: no operation finds the wrong operands. What it leaves behind has the right
shapes again.

* `Data.Shaped`: the values of a type;
* `Context.exists_step?`, `Context.exists_run?`: a well-typed operation, or body, runs;
* `Program.WellTyped.exists_run?`: so does every method of a well-typed program. -/

namespace ShaderStage

/-! ## Shapes -/

namespace Ty

/-- The number of parts of a composite type. -/
def count? : Ty → Option Nat
  | .vector count => some count.toNat
  | .matrix4 => some 4
  | .array _ length => some length.toNat
  | .struct _ members => some members.length
  | _ => none

/-- The parts that values are taken apart into are those of the typing rules. -/
theorem part?_eq_some_iff {t u : Ty} {i : Word} :
    t.part? i = some u ↔ t.underlying.HasPart i u := by
  rw [← component_eq_ok_iff]
  unfold part? component
  rw [underlying_underlying]
  cases t.underlying with
  | vector count => by_cases h : i < count.toUInt32 <;> simp [h]
  | matrix4 => by_cases h : i < 4 <;> simp [h]
  | array elem length => by_cases h : i < length <;> simp [h]
  | struct name members => cases h : members.type? i.toNat <;> simp [h]
  | _ => simp

theorem pointerFree_part? {t u : Ty} {i : Word} (ht : t.PointerFree) (h : t.part? i = some u) :
    u.PointerFree :=
  (part?_eq_some_iff.mp h).pointerFree ((pointerFree_underlying t).mpr ht)

theorem HasPart.underlying {t u : Ty} {i : Word} (h : t.HasPart i u) : t.underlying = t := by
  cases h <;> rfl

end Ty

/-- Only members that exist have types. -/
theorem Members.lt_length_of_type? {members : Members} {i : Nat} {t : Ty}
    (h : members.type? i = some t) : i < members.length := by
  induction members, i using type?.induct with
  | case1 i => cases h
  | case2 name type rest => exact Nat.succ_pos _
  | case3 name type rest i ih => exact Nat.succ_lt_succ (ih h)

/-- A part is one of those that are counted. -/
theorem Ty.lt_of_part? {t u : Ty} {i : Word} (h : t.part? i = some u) :
    ∃ n, t.underlying.count? = some n ∧ i.toNat < n := by
  have hpart := part?_eq_some_iff.mp h
  generalize t.underlying = t at hpart
  cases hpart with
  | vector hi => exact ⟨_, rfl, UInt32.lt_iff_toNat_lt.mp hi⟩
  | matrix4 hi => exact ⟨_, rfl, UInt32.lt_iff_toNat_lt.mp hi⟩
  | array hi => exact ⟨_, rfl, UInt32.lt_iff_toNat_lt.mp hi⟩
  | struct hi => exact ⟨_, rfl, Members.lt_length_of_type? hi⟩

namespace Data

variable {S : Type}

/-- The value has the shape of a type: a composite has a part of the right shape for each part of
its type, and everything else is a scalar. -/
inductive Shaped : Ty → Data S → Prop
  | scalar {t : Ty} {s : S} (h : t.underlying.count? = none) : Shaped t (.scalar s)
  | composite {t : Ty} {parts : List (Data S)} (hcount : t.underlying.count? = some parts.length)
      (hparts : ∀ i u d, t.part? i = some u → parts[i.toNat]? = some d → Shaped u d) :
      Shaped t (.composite parts)

/-- A value of a composite type has its parts. -/
theorem Shaped.part {t u : Ty} {d : Data S} {i : Word} (h : Shaped t d) (hi : t.part? i = some u) :
    ∃ parts part, d = .composite parts ∧ parts[i.toNat]? = some part ∧ Shaped u part := by
  obtain ⟨n, hn, hlt⟩ := Ty.lt_of_part? hi
  cases h with
  | scalar hnone => cases hn.symm.trans hnone
  | @composite t parts hcount hparts =>
    cases hcount.symm.trans hn
    have hget := List.getElem?_eq_getElem hlt
    exact ⟨parts, _, rfl, hget, hparts i u _ hi hget⟩

end Data

namespace Ty

/-- The type at the end of a path. -/
def follow? : Ty → List Word → Option Ty
  | t, [] => some t
  | t, i :: path => do
    let u ← t.part? i
    u.follow? path

/-- A path can be followed one step further. -/
theorem follow?_concat {t u v : Ty} {path : List Word} {i : Word} (h : t.follow? path = some u)
    (hi : u.part? i = some v) : t.follow? (path ++ [i]) = some v := by
  induction path generalizing t with
  | nil =>
    cases h
    simp [follow?, hi]
  | cons j path ih =>
    obtain ⟨t', ht', h⟩ := Option.bind_eq_some_iff.mp h
    simp [follow?, ht', ih h]

end Ty

namespace Data

variable {S : Type}

/-- A value has a part at the end of every path that its type has, of the type found there. -/
theorem Shaped.at? {t u : Ty} {d : Data S} {path : List Word} (h : Shaped t d)
    (hpath : t.follow? path = some u) : ∃ d', d.at? path = some d' ∧ Shaped u d' := by
  induction path generalizing t d with
  | nil =>
    cases hpath
    exact ⟨d, by simp [Data.at?], h⟩
  | cons i path ih =>
    obtain ⟨t', ht', hpath⟩ := Option.bind_eq_some_iff.mp hpath
    obtain ⟨parts, part, rfl, hpart, hshaped⟩ := h.part ht'
    obtain ⟨d', hd', hshaped'⟩ := ih hshaped hpath
    exact ⟨d', by simp [Data.at?, hpart, hd'], hshaped'⟩

/-- Replacing a part by one of its shape keeps the shape of the whole. -/
theorem Shaped.replace? {t u : Ty} {d new : Data S} {path : List Word} (h : Shaped t d)
    (hpath : t.follow? path = some u) (hnew : Shaped u new) :
    ∃ d', d.replace? path new = some d' ∧ Shaped t d' := by
  induction path generalizing t d with
  | nil =>
    cases hpath
    exact ⟨new, by simp [Data.replace?], hnew⟩
  | cons i path ih =>
    obtain ⟨t', ht', hpath⟩ := Option.bind_eq_some_iff.mp hpath
    obtain ⟨parts, part, rfl, hpart, hshaped⟩ := h.part ht'
    obtain ⟨part', hpart', hshaped'⟩ := ih hshaped hpath
    refine ⟨_, by simp [Data.replace?, hpart, hpart']; rfl, ?_⟩
    cases h with
    | composite hcount hparts =>
      refine .composite (by rw [hcount, List.length_set]) fun j u d hj hd => ?_
      -- The parts beside the replaced one are as they were.
      by_cases hij : i.toNat = j.toNat
      · cases UInt32.toNat_inj.mp hij
        cases ht'.symm.trans hj
        rw [List.getElem?_set_self (List.getElem?_eq_some_iff.mp hpart).1] at hd
        cases hd
        exact hshaped'
      · rw [List.getElem?_set_ne hij] at hd
        exact hparts j u d hj hd

end Data

theorem Members.type?_canon (members : Members) (i : Nat) :
    members.canon.type? i = (members.type? i).map Ty.canon := by
  induction members, i using type?.induct with
  | case1 i => rfl
  | case2 name type rest => rfl
  | case3 name type rest i ih => exact ih

theorem Members.length_canon (members : Members) : members.canon.length = members.length := by
  induction members using toList.induct with
  | case1 => rfl
  | case2 name type rest ih => exact congrArg (· + 1) ih

namespace Ty

theorem count?_canon (t : Ty) : t.canon.underlying.count? = t.underlying.count? := by
  cases t with
  | struct name members => exact congrArg some members.length_canon
  | _ => rfl

theorem part?_canon (t : Ty) (i : Word) : t.canon.part? i = (t.part? i).map canon := by
  cases t with
  | vector count => by_cases h : i < count.toUInt32 <;> simp [part?, underlying, canon, float32, h]
  | matrix4 => by_cases h : i < 4 <;> simp [part?, underlying, canon, vec4, h]
  | array elem length => by_cases h : i < length <;> simp [part?, underlying, canon, h]
  | struct name members => exact members.type?_canon i.toNat
  | _ => rfl

end Ty

namespace Data

variable {S : Type}

/-- Types that are one type under different names have the same values. -/
theorem Shaped.alike {t u : Ty} {d : Data S} (h : Shaped t d) (halike : t.Alike u) :
    Shaped u d := by
  replace halike : t.canon = u.canon := halike
  induction h generalizing u with
  | @scalar t s hnone => exact .scalar (by rw [← u.count?_canon, ← halike, t.count?_canon, hnone])
  | @composite t parts hcount _ ih =>
    refine .composite (by rw [← u.count?_canon, ← halike, t.count?_canon, hcount]) ?_
    intro i v d hv hd
    have hcanon := u.part?_canon i
    rw [← halike, t.part?_canon, hv] at hcanon
    obtain ⟨v', hv', heq⟩ := Option.map_eq_some_iff.mp hcanon
    exact ih i v' d hv' hd heq

/-- A value of a type without parts is a scalar. -/
theorem Shaped.exists_scalar {t : Ty} {d : Data S} (h : Shaped t d)
    (ht : t.underlying.count? = none) : ∃ s, d = .scalar s := by
  cases h with
  | scalar => exact ⟨_, rfl⟩
  | composite hcount => cases ht.symm.trans hcount

/-- The parts of a value whose type has parts of one type only. -/
theorem Shaped.exists_parts {t u : Ty} {d : Data S} {n : Nat} (h : Shaped t d)
    (hn : t.underlying.count? = some n) (hu : ∀ i : Word, i.toNat < n → t.part? i = some u)
    (hsmall : n < UInt32.size) :
    ∃ parts, d = .composite parts ∧ parts.length = n ∧ ∀ part ∈ parts, Shaped u part := by
  cases h with
  | scalar hnone => cases hn.symm.trans hnone
  | @composite t parts hcount hparts =>
    cases hcount.symm.trans hn
    refine ⟨parts, rfl, rfl, fun part hpart => ?_⟩
    obtain ⟨j, hj, rfl⟩ := List.mem_iff_getElem.mp hpart
    have hword : (UInt32.ofNat j).toNat = j := UInt32.toNat_ofNat_of_lt (by omega)
    refine hparts (.ofNat j) u _ (hu _ (by omega)) ?_
    rw [hword, List.getElem?_eq_getElem hj]

/-! ## Vectors and matrices -/

/-- A list of values of a function comes from a list of arguments. -/
theorem exists_map_of_forall {α β : Type} {f : α → β} {P : α → Prop} {bs : List β}
    (h : ∀ b ∈ bs, ∃ a, P a ∧ b = f a) : ∃ as : List α, bs = as.map f ∧ ∀ a ∈ as, P a := by
  induction bs with
  | nil => exact ⟨[], rfl, nofun⟩
  | cons b bs ih =>
    obtain ⟨⟨a, ha, rfl⟩, hbs⟩ := List.forall_mem_cons.mp h
    obtain ⟨as, rfl, has⟩ := ih hbs
    exact ⟨a :: as, rfl, List.forall_mem_cons.mpr ⟨ha, has⟩⟩

theorem mapM_map {α β : Type} {f : α → β} {g : β → Option α} (h : ∀ a, g (f a) = some a)
    (as : List α) : (as.map f).mapM g = some as := by
  induction as with
  | nil => rfl
  | cons a as ih => simp [h, ih]

/-- A vector is taken apart into what it was made of. -/
@[simp] theorem components?_vector (cs : List S) : (vector cs).components? = some cs :=
  mapM_map (f := scalar) (g := scalar?) (fun _ => rfl) cs

/-- A matrix is taken apart into what it was made of. -/
@[simp] theorem columns?_matrix (cs : List (List S)) : (matrix cs).columns? = some cs :=
  mapM_map components?_vector cs

@[simp] theorem scalar?_scalar (s : S) : (scalar s).scalar? = some s := rfl

/-- A value of a vector type is a vector with as many components. -/
theorem Shaped.exists_vector {n : UInt8} {d : Data S} (h : Shaped (.vector n) d) :
    ∃ cs, d = vector cs ∧ cs.length = n.toNat := by
  have hpart : ∀ i : Word, i.toNat < n.toNat → (Ty.vector n).part? i = some .float32 := by
    intro i hi
    exact if_pos (UInt32.lt_iff_toNat_lt.mpr hi)
  have hsmall : n.toNat < UInt32.size := Nat.lt_trans n.toNat_lt (by decide)
  obtain ⟨parts, rfl, hlength, hparts⟩ := h.exists_parts rfl hpart hsmall
  have hscalars : ∀ part ∈ parts, ∃ s : S, True ∧ part = .scalar s := by
    intro part hmem
    obtain ⟨s, rfl⟩ := (hparts part hmem).exists_scalar rfl
    exact ⟨s, trivial, rfl⟩
  obtain ⟨cs, rfl, -⟩ := exists_map_of_forall hscalars
  exact ⟨cs, rfl, by rw [← hlength, List.length_map]⟩

/-- As many components make a value of the vector type. -/
theorem shaped_vector {n : UInt8} {cs : List S} (h : cs.length = n.toNat) :
    Shaped (.vector n) (vector cs) := by
  refine .composite (by rw [List.length_map, h]; rfl) fun i u d hu hd => ?_
  have hu : u = .float32 := by
    cases Ty.part?_eq_some_iff.mp hu
    rfl
  obtain ⟨s, -, rfl⟩ := List.mem_map.mp (List.mem_of_getElem? hd)
  rw [hu]
  exact .scalar rfl

/-- A value of the matrix type is a matrix of four columns of four. -/
theorem Shaped.exists_matrix {d : Data S} (h : Shaped .matrix4 d) :
    ∃ cs, d = matrix cs ∧ cs.length = 4 ∧ ∀ c ∈ cs, c.length = 4 := by
  have hpart : ∀ i : Word, i.toNat < 4 → Ty.matrix4.part? i = some .vec4 := by
    intro i hi
    exact if_pos (UInt32.lt_iff_toNat_lt.mpr hi)
  obtain ⟨parts, rfl, hlength, hparts⟩ := h.exists_parts rfl hpart (by decide)
  have hcolumns : ∀ part ∈ parts, ∃ c : List S, c.length = 4 ∧ part = vector c := by
    intro part hmem
    obtain ⟨c, rfl, hc⟩ := (hparts part hmem).exists_vector
    exact ⟨c, hc, rfl⟩
  obtain ⟨cs, rfl, hcs⟩ := exists_map_of_forall hcolumns
  exact ⟨cs, rfl, by rw [← hlength, List.length_map], hcs⟩

/-- Four columns of four make a matrix. -/
theorem shaped_matrix {cs : List (List S)} (h : cs.length = 4) (hcs : ∀ c ∈ cs, c.length = 4) :
    Shaped .matrix4 (matrix cs) := by
  refine .composite (by rw [List.length_map, h]; rfl) fun i u d hu hd => ?_
  have hu : u = .vec4 := by
    cases Ty.part?_eq_some_iff.mp hu
    rfl
  obtain ⟨c, hc, rfl⟩ := List.mem_map.mp (List.mem_of_getElem? hd)
  rw [hu]
  exact shaped_vector (hcs c hc)

/-- A function is applied to each component. -/
theorem map?_vector (f : S → S) (cs : List S) : (vector cs).map? f = some (vector (cs.map f)) := by
  show (vector cs).components?.map _ = _
  rw [components?_vector]
  rfl

/-- An operator is applied to the components in pairs. -/
theorem zip?_vector (f : S → S → S) {as bs : List S} (h : as.length = bs.length) :
    (vector as).zip? f (vector bs) = some (vector (List.zipWith f as bs)) := by
  show ((vector as).components?.bind fun as => (vector bs).components?.bind fun bs => _) = _
  rw [components?_vector, components?_vector]
  exact if_pos h

theorem spread?_vector (cs : List S) : (vector cs).spread? = some cs :=
  components?_vector cs

/-- Functions keep the shapes of their arguments. -/
theorem Shaped.map? {t : Ty} {d : Data S} (ht : t.MathOperand) (h : Shaped t d) (f : S → S) :
    ∃ d', d.map? f = some d' ∧ Shaped t d' := by
  cases ht with
  | float width =>
    obtain ⟨s, rfl⟩ := h.exists_scalar rfl
    exact ⟨_, rfl, .scalar rfl⟩
  | vector n =>
    obtain ⟨cs, rfl, hcs⟩ := h.exists_vector
    exact ⟨_, map?_vector f cs, shaped_vector (by rw [List.length_map, hcs])⟩

/-- Operators keep the shapes of their operands. -/
theorem Shaped.zip? {t : Ty} {l r : Data S} (ht : t.Arithmetic) (hl : Shaped t l) (hr : Shaped t r)
    (f : S → S → S) : ∃ d, l.zip? f r = some d ∧ Shaped t d := by
  cases ht with
  | float | int =>
    obtain ⟨a, rfl⟩ := hl.exists_scalar rfl
    obtain ⟨b, rfl⟩ := hr.exists_scalar rfl
    exact ⟨_, rfl, .scalar rfl⟩
  | vector n =>
    obtain ⟨as, rfl, has⟩ := hl.exists_vector
    obtain ⟨bs, rfl, hbs⟩ := hr.exists_vector
    refine ⟨_, zip?_vector f (has.trans hbs.symm), shaped_vector ?_⟩
    rw [List.length_zipWith, has, hbs, Nat.min_self]

end Data

/-- A partial function that is defined on each element is defined on the list. -/
theorem exists_mapM {α β : Type} {f : α → Option β} {P : β → Prop} {xs : List α}
    (h : ∀ x ∈ xs, ∃ y, f x = some y ∧ P y) :
    ∃ ys, xs.mapM f = some ys ∧ ys.length = xs.length ∧ ∀ y ∈ ys, P y := by
  induction xs with
  | nil => exact ⟨[], rfl, rfl, nofun⟩
  | cons x xs ih =>
    obtain ⟨⟨y, hy, hPy⟩, hxs⟩ := List.forall_mem_cons.mp h
    obtain ⟨ys, hys, hlength, hPys⟩ := ih hxs
    exact ⟨y :: ys, by simp [hy, hys], by simp [hlength], List.forall_mem_cons.mpr ⟨hPy, hPys⟩⟩

/-! ## Operators -/

namespace ScalarOps

variable {S : Type} (A : ScalarOps S)

open Data (Shaped vector matrix)

/-- Two lists of components of the same length have a product. -/
theorem exists_dot? (width : Word) {as bs : List S} (h : as.length = bs.length)
    (hpos : 0 < as.length) : ∃ s, A.dot? width as bs = some s := by
  unfold dot?
  cases hzip : List.zipWith (A.fMul width) as bs with
  | nil =>
    rcases List.zipWith_eq_nil_iff.mp hzip with rfl | rfl
    · cases hpos
    · rw [h] at hpos
      cases hpos
  | cons c cs => exact ⟨_, rfl⟩

/-- Adding columns up does not change their length. -/
theorem length_foldl_zipWith (f : S → S → S) {n : Nat} {c : List S} {cs : List (List S)}
    (hc : c.length = n) (hcs : ∀ c ∈ cs, c.length = n) :
    (cs.foldl (List.zipWith f) c).length = n := by
  induction cs generalizing c with
  | nil => exact hc
  | cons c' cs ih =>
    obtain ⟨hc', hcs⟩ := List.forall_mem_cons.mp hcs
    exact ih (by rw [List.length_zipWith, hc, hc', Nat.min_self]) hcs

/-- Columns and as many scalars can be combined. -/
theorem exists_combine? (width : Word) {columns : List (List S)} {scalars : List S} {n : Nat}
    (h : columns.length = scalars.length) (hpos : 0 < columns.length)
    (hcolumns : ∀ c ∈ columns, c.length = n) :
    ∃ c, A.combine? width columns scalars = some c ∧ c.length = n := by
  have hscaled : ∀ c ∈ List.zipWith (fun column s => column.map (A.fMul width · s)) columns scalars,
      c.length = n := by
    intro c hc
    obtain ⟨i, hi, rfl⟩ := List.mem_iff_getElem.mp hc
    rw [List.getElem_zipWith, List.length_map]
    exact hcolumns _ (List.getElem_mem _)
  unfold combine?
  cases hzip : List.zipWith (fun column s => column.map (A.fMul width · s)) columns scalars with
  | nil =>
    rcases List.zipWith_eq_nil_iff.mp hzip with rfl | rfl
    · cases hpos
    · rw [h] at hpos
      cases hpos
  | cons c cs =>
    rw [hzip] at hscaled
    obtain ⟨hhead, htail⟩ := List.forall_mem_cons.mp hscaled
    exact ⟨_, rfl, length_foldl_zipWith _ hhead htail⟩

theorem exists_scaleVector? (width : Word) {n : UInt8} {v x : Data S} (hv : Shaped (.vector n) v)
    (hx : Shaped .float32 x) : ∃ d, A.scaleVector? width v x = some d ∧ Shaped (.vector n) d := by
  obtain ⟨cs, rfl, hcs⟩ := hv.exists_vector
  obtain ⟨s, rfl⟩ := hx.exists_scalar rfl
  refine ⟨vector (cs.map (A.fMul width · s)), by simp [scaleVector?], Data.shaped_vector ?_⟩
  rw [List.length_map, hcs]

theorem exists_scaleMatrix? (width : Word) {m x : Data S} (hm : Shaped .matrix4 m)
    (hx : Shaped .float32 x) : ∃ d, A.scaleMatrix? width m x = some d ∧ Shaped .matrix4 d := by
  obtain ⟨cs, rfl, hlength, hcs⟩ := hm.exists_matrix
  obtain ⟨s, rfl⟩ := hx.exists_scalar rfl
  refine ⟨matrix (cs.map (·.map (A.fMul width · s))), by simp [scaleMatrix?],
    Data.shaped_matrix (by rw [List.length_map, hlength]) fun c hc => ?_⟩
  obtain ⟨column, hcolumn, rfl⟩ := List.mem_map.mp hc
  rw [List.length_map, hcs column hcolumn]

theorem exists_vectorTimesMatrix? (width : Word) {v m : Data S} (hv : Shaped .vec4 v)
    (hm : Shaped .matrix4 m) :
    ∃ d, A.vectorTimesMatrix? width v m = some d ∧ Shaped .vec4 d := by
  obtain ⟨cs, rfl, hcs⟩ := hv.exists_vector
  obtain ⟨columns, rfl, hlength, hcolumns⟩ := hm.exists_matrix
  have hdot : ∀ c ∈ columns, ∃ s, A.dot? width cs c = some s ∧ True := by
    intro c hc
    obtain ⟨s, hs⟩ := A.exists_dot? width (hcs.trans (hcolumns c hc).symm) (by rw [hcs]; decide)
    exact ⟨s, hs, trivial⟩
  obtain ⟨ds, hds, hlength', -⟩ := exists_mapM hdot
  exact ⟨vector ds, by simp [vectorTimesMatrix?, hds],
    Data.shaped_vector (hlength'.trans hlength)⟩

theorem exists_matrixTimesVector? (width : Word) {m v : Data S} (hm : Shaped .matrix4 m)
    (hv : Shaped .vec4 v) :
    ∃ d, A.matrixTimesVector? width m v = some d ∧ Shaped .vec4 d := by
  obtain ⟨columns, rfl, hlength, hcolumns⟩ := hm.exists_matrix
  obtain ⟨cs, rfl, hcs⟩ := hv.exists_vector
  obtain ⟨ds, hds, hlength'⟩ :=
    A.exists_combine? width (hlength.trans hcs.symm) (by rw [hlength]; decide) hcolumns
  exact ⟨vector ds, by simp [matrixTimesVector?, hds], Data.shaped_vector hlength'⟩

theorem exists_matrixTimesMatrix? (width : Word) {l r : Data S} (hl : Shaped .matrix4 l)
    (hr : Shaped .matrix4 r) :
    ∃ d, A.matrixTimesMatrix? width l r = some d ∧ Shaped .matrix4 d := by
  obtain ⟨left, rfl, hleft, hcolumns⟩ := hl.exists_matrix
  obtain ⟨right, rfl, hright, hcolumns'⟩ := hr.exists_matrix
  have hcombine : ∀ c ∈ right, ∃ d, A.combine? width left c = some d ∧ d.length = 4 := by
    intro c hc
    exact A.exists_combine? width (hleft.trans (hcolumns' c hc).symm) (by rw [hleft]; decide)
      hcolumns
  obtain ⟨ds, hds, hlength, hcs⟩ := exists_mapM hcombine
  exact ⟨matrix ds, by simp [matrixTimesMatrix?, hds],
    Data.shaped_matrix (hlength.trans hright) hcs⟩

/-- Operands of one type have no product of their own. -/
theorem product?_eq_none {left right : Ty} (hleft : left.Arithmetic) (h : left.Alike right) :
    A.product? left right = none := by
  have h : left.canon = right.canon := h
  cases hleft with
  | float | vector => cases right <;> first | rfl | cases h
  | int => cases right <;> rfl

/-- A known operator works on every type that has an arithmetic. -/
theorem exists_uniform? {op : BinaryOperator} (hop : ∀ code, op ≠ .unknown code) {t : Ty}
    (ht : t.Arithmetic) : ∃ f, A.uniform? op t = some f := by
  cases op with
  | unknown code => exact absurd rfl (hop code)
  | _ => cases ht <;> exact ⟨_, rfl⟩

/-- An operator has a value at operands of types that it combines. -/
theorem exists_operate? {op : BinaryOperator} {left right t : Ty} (h : op.Combines left right t)
    {l r : Data S} (hl : Shaped left l) (hr : Shaped right r) :
    ∃ d, A.operate? op left right l r = some (t, d) ∧ Shaped t d := by
  cases h with
  | matrixMatrix =>
    obtain ⟨d, hd, hshaped⟩ := A.exists_matrixTimesMatrix? 32 hl hr
    exact ⟨d, by simp [operate?, product?, hd], hshaped⟩
  | matrixVector =>
    obtain ⟨d, hd, hshaped⟩ := A.exists_matrixTimesVector? 32 hl hr
    exact ⟨d, by simp [operate?, product?, Ty.vec4, hd], hshaped⟩
  | vectorMatrix =>
    obtain ⟨d, hd, hshaped⟩ := A.exists_vectorTimesMatrix? 32 hl hr
    exact ⟨d, by simp [operate?, product?, Ty.vec4, hd], hshaped⟩
  | matrixScalar =>
    obtain ⟨d, hd, hshaped⟩ := A.exists_scaleMatrix? 32 hl hr
    exact ⟨d, by simp [operate?, product?, Ty.float32, hd], hshaped⟩
  | scalarMatrix =>
    obtain ⟨d, hd, hshaped⟩ := A.exists_scaleMatrix? 32 hr hl
    exact ⟨d, by simp [operate?, product?, Ty.float32, hd], hshaped⟩
  | vectorScalar count =>
    obtain ⟨d, hd, hshaped⟩ := A.exists_scaleVector? 32 hl hr
    exact ⟨d, by simp [operate?, product?, Ty.float32, hd], hshaped⟩
  | scalarVector count =>
    obtain ⟨d, hd, hshaped⟩ := A.exists_scaleVector? 32 hr hl
    exact ⟨d, by simp [operate?, product?, Ty.float32, hd], hshaped⟩
  | uniform hop hleft halike =>
    obtain ⟨f, hf⟩ := A.exists_uniform? hop hleft
    obtain ⟨d, hd, hshaped⟩ := hl.zip? hleft (hr.alike halike.symm) f
    exact ⟨d, by simp [operate?, A.product?_eq_none hleft halike, hf, hd], hshaped⟩

/-- A mathematical function has a value at a float or a vector. -/
theorem exists_math? {f : MathFunction} (hf : ∀ code, f ≠ .unknown code) {t : Ty}
    (ht : t.MathOperand) {d : Data S} (hd : Shaped t d) :
    ∃ d', A.math? f d t = some d' ∧ Shaped t d' := by
  have hfunction : ∀ width, ∃ g, A.mathFunction? width f = some g := by
    intro width
    cases f with
    | unknown code => exact absurd rfl (hf code)
    | _ => exact ⟨_, rfl⟩
  cases ht with
  | float width =>
    obtain ⟨g, hg⟩ := hfunction width.toUInt32
    obtain ⟨d', hd', hshaped⟩ := hd.map? (.float width) g
    exact ⟨d', by simp [math?, hg, hd'], hshaped⟩
  | vector n =>
    obtain ⟨g, hg⟩ := hfunction 32
    obtain ⟨d', hd', hshaped⟩ := hd.map? (.vector n) g
    exact ⟨d', by simp [math?, hg, hd'], hshaped⟩

end ScalarOps

/-! ## Composites -/

section

variable {S : Type}

open Data (Shaped vector)

/-- The parts of a vector spread into as many components as their types span. -/
theorem exists_spread {types : List Ty} {counts : List Nat} {parts : List (Data S)}
    (hspans : List.Forall₂ Ty.Spans types counts) (hparts : List.Forall₂ Shaped types parts) :
    ∃ css, parts.mapM Data.spread? = some css ∧ css.flatten.length = counts.sum := by
  induction hspans generalizing parts with
  | nil =>
    cases hparts
    exact ⟨[], rfl, rfl⟩
  | @cons type count _ _ hspan _ ih =>
    cases hparts with
    | @cons _ part _ parts hpart hparts =>
      obtain ⟨css, hcss, hlength⟩ := ih hparts
      have hhead : ∃ cs, part.spread? = some cs ∧ cs.length = count := by
        cases hspan with
        | vector n =>
          obtain ⟨cs, rfl, hcs⟩ := hpart.exists_vector
          exact ⟨cs, Data.spread?_vector cs, hcs⟩
        | scalar =>
          obtain ⟨s, rfl⟩ := hpart.exists_scalar rfl
          exact ⟨[s], rfl, rfl⟩
      obtain ⟨cs, hcs, hlength'⟩ := hhead
      exact ⟨cs :: css, by simp [hcs, hcss], by simp [hlength, hlength']⟩

/-- Parts of the right types make a composite. -/
theorem Ty.Built.exists_make? {t : Ty} {types : List Ty} (h : t.Built types)
    {parts : List (Data S)} (hparts : List.Forall₂ Shaped types parts) :
    ∃ d, t.make? parts = some d ∧ Shaped t d := by
  cases h with
  | vector hspans hsum =>
    obtain ⟨css, hcss, hlength⟩ := exists_spread hspans hparts
    refine ⟨.vector css.flatten, ?_, Data.shaped_vector (hlength.trans hsum)⟩
    show (parts.mapM Data.spread?).map _ = _
    rw [hcss]
    rfl
  | parts hcount hbuilt =>
    -- Enumerations have no parts, so there is nothing to look through.
    have hunderlying : t.underlying = t := by
      cases t <;> first | rfl | cases hcount
    have hmake : t.make? parts = some (.composite parts) := by
      unfold Ty.make?
      rw [hunderlying]
      cases t <;> first | rfl | cases hcount
    have hlength : t.underlying.count? = some parts.length := by
      rw [hunderlying, ← hparts.length_eq]
      cases t <;> first | exact hcount | cases hcount
    refine ⟨_, hmake, .composite hlength fun i u d hu hd => ?_⟩
    rw [part?_eq_some_iff, hunderlying] at hu
    obtain ⟨hi, rfl⟩ := List.getElem?_eq_some_iff.mp hd
    have hi' : i.toNat < types.length := by rwa [hparts.length_eq]
    obtain ⟨type, htype, halike⟩ := hbuilt i.toNat _ (List.getElem?_eq_getElem hi')
    rw [UInt32.ofNat_toNat] at htype
    cases hu.unique htype
    exact (List.forall₂_iff_get.mp hparts).2 i.toNat hi' hi |>.alike halike

end

/-! ## Stores -/

/-- Changing one element changes no other. -/
theorem elementAt?_set {α : Type} {xs : List α} {n : Int} {old : α} (h : elementAt? xs n = some old)
    (new : α) (i : Int) :
    elementAt? (xs.set n.toNat new) i = if i = n then some new else elementAt? xs i := by
  cases n with
  | negSucc n => cases h
  | ofNat n =>
    cases i with
    | negSucc i => simp [elementAt?]
    | ofNat i =>
      have hlt : n < xs.length := (List.getElem?_eq_some_iff.mp h).1
      by_cases hi : i = n
      · subst hi
        simp [elementAt?, hlt]
      · have hne : ¬ Int.ofNat i = Int.ofNat n := fun h => hi (Int.ofNat.inj h)
        rw [if_neg hne]
        exact List.getElem?_set_ne (Ne.symm hi)

/-- The type of a cell. -/
def Context.type? (Γ : Context) : Cell → Option Ty
  | .field n => elementAt? Γ.fields n
  | .own n => elementAt? Γ.locals n

namespace Store

variable {S : Type}

/-- Writing one cell changes no other. -/
theorem read?_write {σ : Store S} {cell : Cell} {old : Data S} (h : σ.read? cell = some old)
    (new : Data S) (c : Cell) :
    (σ.write new cell).read? c = if c = cell then some new else σ.read? c := by
  cases cell with
  | field n =>
    cases c with
    | field i =>
      simp only [Cell.field.injEq]
      exact elementAt?_set h new i
    | own i => rfl
  | own n =>
    cases c with
    | field i => rfl
    | own i =>
      simp only [Cell.own.injEq]
      exact elementAt?_set h new i

/-- Every cell holds a value of the shape of its type. -/
def Shaped (Γ : Context) (σ : Store S) : Prop :=
  ∀ cell t, Γ.type? cell = some t → ∃ d, σ.read? cell = some d ∧ d.Shaped t

/-- A path that the type of a cell has can be loaded from, and gives a value of its type. -/
theorem Shaped.load? {Γ : Context} {σ : Store S} (h : σ.Shaped Γ) {cell : Cell} {root t : Ty}
    {path : List Word} (hroot : Γ.type? cell = some root) (hpath : root.follow? path = some t) :
    ∃ d, σ.load? cell path = some d ∧ d.Shaped t := by
  obtain ⟨d, hd, hshaped⟩ := h cell root hroot
  obtain ⟨d', hd', hshaped'⟩ := hshaped.at? hpath
  exact ⟨d', by simp [Store.load?, hd, hd'], hshaped'⟩

/-- A value can be stored where its type fits, and the store keeps its shape. -/
theorem Shaped.store? {Γ : Context} {σ : Store S} (h : σ.Shaped Γ) {cell : Cell} {root t : Ty}
    {path : List Word} (hroot : Γ.type? cell = some root) (hpath : root.follow? path = some t)
    {new : Data S} (hnew : new.Shaped t) :
    ∃ σ', σ.store? cell path new = some σ' ∧ σ'.Shaped Γ := by
  obtain ⟨d, hd, hshaped⟩ := h cell root hroot
  obtain ⟨d', hd', hshaped'⟩ := hshaped.replace? hpath hnew
  refine ⟨σ.write d' cell, by simp [Store.store?, hd, hd'], fun c t hc => ?_⟩
  rw [read?_write hd]
  by_cases hcell : c = cell
  · subst hcell
    cases hroot.symm.trans hc
    exact ⟨d', if_pos rfl, hshaped'⟩
  · rw [if_neg hcell]
    exact h c t hc

end Store

/-! ## Slots -/

/-- A slot has the key that its type gives it. Values have the shapes of their types, and pointers
lead from the type of a cell to the type of what they point to. -/
inductive Slot.Typed {S : Type} (Γ : Context) (k : Key) : Slot S → Prop
  | value {t : Ty} {d : Data S} (hk : k.type = t.underlying) (ht : t.PointerFree)
      (hd : d.Shaped t) : Typed Γ k (.value t d)
  | pointer {t root : Ty} {cell : Cell} {path : List Word} (hk : k.type = .pointer t.underlying)
      (ht : t.PointerFree) (hroot : Γ.type? cell = some root)
      (hpath : root.follow? path = some t) : Typed Γ k (.pointer t cell path)

namespace Slot.Typed

variable {S : Type} {Γ : Context} {k : Key} {slot : Slot S}

/-- A slot of a pointer type points into a cell, along a path that the cell has. -/
theorem exists_pointer (h : slot.Typed Γ k) {elem : Ty} (hk : k.type = .pointer elem) :
    ∃ t cell path root, slot = .pointer t cell path ∧ elem = t.underlying ∧ t.PointerFree ∧
      Γ.type? cell = some root ∧ root.follow? path = some t := by
  cases h with
  | value hk' ht =>
    have hfree := (Ty.pointerFree_underlying _).mpr ht
    rw [← hk', hk] at hfree
    cases hfree
  | pointer hk' ht hroot hpath =>
    cases hk.symm.trans hk'
    exact ⟨_, _, _, _, rfl, rfl, ht, hroot, hpath⟩

/-- A slot of any other type holds a value of it. -/
theorem exists_value (h : slot.Typed Γ k) (hk : ∀ elem, k.type ≠ .pointer elem) :
    ∃ t d, slot = .value t d ∧ k.type = t.underlying ∧ t.PointerFree ∧ d.Shaped t := by
  cases h with
  | value hk' ht hd => exact ⟨_, _, rfl, hk', ht, hd⟩
  | pointer hk' => exact absurd hk' (hk _)

/-- A value of a type with parts. -/
theorem exists_composite (h : slot.Typed Γ k) {i : Word} {u : Ty} (hpart : k.type.HasPart i u) :
    ∃ t d, slot = .value t d ∧ t.part? i = some u ∧ t.PointerFree ∧ d.Shaped t := by
  have hk : ∀ elem, k.type ≠ .pointer elem := by
    intro elem hk
    rw [hk] at hpart
    cases hpart
  obtain ⟨t, d, rfl, hk, ht, hd⟩ := h.exists_value hk
  rw [hk] at hpart
  exact ⟨t, d, rfl, Ty.part?_eq_some_iff.mpr hpart, ht, hd⟩

/-- A value without pointers is typed by the key for it. -/
theorem value_normalize {t : Ty} {d : Data S} (ht : t.PointerFree) (hd : d.Shaped t) :
    (Slot.value t d).Typed Γ (Key.value t).normalize :=
  .value (Key.type_normalize_value ht) ht hd

end Slot.Typed

/-- What is made of parts and has no pointer in it is made of no pointers. -/
theorem Ty.Built.ne_pointer {t : Ty} {types : List Ty} (h : t.Built types) (ht : t.PointerFree) :
    ∀ u ∈ types, ∀ elem, u ≠ .pointer elem := by
  cases h with
  | vector hspans hsum =>
    clear hsum
    induction hspans with
    | nil => nofun
    | cons hspan _ ih =>
      refine List.forall_mem_cons.mpr ⟨?_, ih⟩
      cases hspan <;> nofun
  | parts _ hparts =>
    intro u hu
    obtain ⟨i, hi⟩ := List.mem_iff_getElem?.mp hu
    obtain ⟨type, htype, halike⟩ := hparts i u hi
    exact halike.ne_pointer (htype.pointerFree ht).ne_pointer

/-- Operators combine values, not pointers. -/
theorem BinaryOperator.Combines.pointerFree {op : BinaryOperator} {left right t : Ty}
    (h : op.Combines left right t) : left.PointerFree ∧ right.PointerFree ∧ t.PointerFree := by
  cases h with
  | uniform _ hleft halike =>
    have hfree : left.PointerFree := by cases hleft <;> trivial
    refine ⟨hfree, ?_, hfree⟩
    have halike : left.canon = right.canon := halike
    cases hleft <;> cases right <;> trivial
  | _ => exact ⟨trivial, trivial, trivial⟩

/-- Slots that are no pointers hold values of the shapes of their types. -/
theorem exists_data {S : Type} {Γ : Context} {ks : List Key} {slots : List (Slot S)}
    (h : List.Forall₂ (Slot.Typed Γ) ks slots)
    (hks : ∀ u ∈ ks.map Key.type, ∀ elem, u ≠ .pointer elem) :
    ∃ parts, slots.mapM Slot.data? = some parts ∧
      List.Forall₂ Data.Shaped (ks.map Key.type) parts := by
  induction h with
  | nil => exact ⟨[], rfl, .nil⟩
  | @cons k slot ks slots hslot _ ih =>
    obtain ⟨hk, hks⟩ := List.forall_mem_cons.mp hks
    obtain ⟨parts, hparts, hshaped⟩ := ih hks
    obtain ⟨t, d, rfl, hkt, -, hd⟩ := hslot.exists_value hk
    refine ⟨d :: parts, by simp [Slot.data?, hparts], .cons (hd.alike ?_) hshaped⟩
    rw [Ty.Alike, hkt, Ty.canon_underlying]

/-- A frame of keys describes a context: the key of a variable is that of a pointer to its type. -/
structure Frame.Describes (F : Frame) (Γ : Context) : Prop where
  fields : ∀ {n k}, elementAt? F.fields n = some k → ∃ t, elementAt? Γ.fields n = some t ∧
    k.type = .pointer t.underlying ∧ t.PointerFree
  locals : ∀ {n k}, elementAt? F.locals n = some k → ∃ t, elementAt? Γ.locals n = some t ∧
    k.type = .pointer t.underlying ∧ t.PointerFree
  result : F.result = Γ.result

namespace Context

variable {S : Type} (A : ScalarOps S) {F : Frame} {Γ : Context} {σ : Store S}

/-- A value may be written to where a pointer of the right type points. -/
theorem exists_store? (hσ : σ.Shaped Γ) {cell : Cell} {root t : Ty} {path : List Word}
    (hroot : Γ.type? cell = some root) (hpath : root.follow? path = some t) (ht : t.PointerFree)
    {v : Key} {slot : Slot S} (hv : slot.Typed Γ v) (halike : t.underlying.Alike v.type) :
    ∃ u d σ', slot = .value u d ∧ σ.store? cell path d = some σ' ∧ σ'.Shaped Γ := by
  have hfree := (Ty.pointerFree_underlying _).mpr ht
  obtain ⟨u, d, rfl, hvt, -, hd⟩ := hv.exists_value (halike.symm.ne_pointer hfree.ne_pointer)
  have hnew : d.Shaped t := by
    refine hd.alike ?_
    rw [Ty.Alike, ← t.canon_underlying, ← u.canon_underlying, ← hvt]
    exact halike.symm
  obtain ⟨σ', hσ', hshaped⟩ := hσ.store? hroot hpath hnew
  exact ⟨u, d, σ', rfl, hσ', hshaped⟩

/-- A well-typed operation takes a step, to slots of the right types and a store of the right
shapes. -/
theorem exists_step? (hF : F.Describes Γ) (hσ : σ.Shaped Γ) {op : Operation} {ks ks' : List Key}
    (h : op.Types F ks (some ks')) (hop : ∀ t count, op = .construct t count → t.PointerFree)
    {slots : List (Slot S)} (hslots : List.Forall₂ (Slot.Typed Γ) ks slots) :
    ∃ slots' σ', Γ.step? A σ op slots = some (slots', σ') ∧
      List.Forall₂ (Slot.Typed Γ) ks' slots' ∧ σ'.Shaped Γ := by
  cases h with
  | @loadField _ n k hn =>
    obtain ⟨t, ht, hk, hfree⟩ := hF.fields hn
    refine ⟨.pointer t (.field n) [] :: slots, σ, by simp [step?.eq_def, ht], .cons ?_ hslots, hσ⟩
    exact .pointer hk hfree ht rfl
  | @loadLocal _ n k hn =>
    obtain ⟨t, ht, hk, hfree⟩ := hF.locals hn
    refine ⟨.pointer t (.own n) [] :: slots, σ, by simp [step?.eq_def, ht], .cons ?_ hslots, hσ⟩
    exact .pointer hk hfree ht rfl
  | @storeField _ n _ _ _ hn hk hv =>
    obtain ⟨t, ht, hk', hfree⟩ := hF.fields hn
    cases hk.symm.trans hk'
    obtain ⟨slot, rest, hslot, hrest, rfl⟩ := List.forall₂_cons_left_iff.mp hslots
    have hroot : Γ.type? (.field n) = some t := ht
    have hpath : t.follow? [] = some t := rfl
    obtain ⟨u, d, σ', rfl, hσ', hshaped⟩ := exists_store? hσ hroot hpath hfree hslot hv
    exact ⟨rest, σ', by simp [step?.eq_def, hσ'], hrest, hshaped⟩
  | @storeLocal _ n _ _ _ hn hk hv =>
    obtain ⟨t, ht, hk', hfree⟩ := hF.locals hn
    cases hk.symm.trans hk'
    obtain ⟨slot, rest, hslot, hrest, rfl⟩ := List.forall₂_cons_left_iff.mp hslots
    have hroot : Γ.type? (.own n) = some t := ht
    have hpath : t.follow? [] = some t := rfl
    obtain ⟨u, d, σ', rfl, hσ', hshaped⟩ := exists_store? hσ hroot hpath hfree hslot hv
    exact ⟨rest, σ', by simp [step?.eq_def, hσ'], hrest, hshaped⟩
  | store hk hv =>
    obtain ⟨slot, _, hslot, htail, rfl⟩ := List.forall₂_cons_left_iff.mp hslots
    obtain ⟨pointer, rest, hpointer, hrest, rfl⟩ := List.forall₂_cons_left_iff.mp htail
    obtain ⟨t, cell, path, root, rfl, rfl, hfree, hroot, hpath⟩ := hpointer.exists_pointer hk
    obtain ⟨u, d, σ', rfl, hσ', hshaped⟩ := exists_store? hσ hroot hpath hfree hslot hv
    exact ⟨rest, σ', by simp [step?.eq_def, hσ'], hrest, hshaped⟩
  | deref hk =>
    obtain ⟨slot, rest, hslot, hrest, rfl⟩ := List.forall₂_cons_left_iff.mp hslots
    obtain ⟨t, cell, path, root, rfl, rfl, hfree, hroot, hpath⟩ := hslot.exists_pointer hk
    obtain ⟨d, hd, hshaped⟩ := hσ.load? hroot hpath
    refine ⟨.value t d :: rest, σ, by simp [step?.eq_def, hd],
      .cons (.value ?_ hfree hshaped) hrest, hσ⟩
    rw [Key.type_normalize_value ((Ty.pointerFree_underlying _).mpr hfree),
      Ty.underlying_underlying]
  | pushUint => exact ⟨_, σ, rfl, .cons (.value rfl trivial (.scalar rfl)) hslots, hσ⟩
  | pushFloat => exact ⟨_, σ, rfl, .cons (.value rfl trivial (.scalar rfl)) hslots, hσ⟩
  | @extract _ _ i u hpart =>
    obtain ⟨slot, rest, hslot, hrest, rfl⟩ := List.forall₂_cons_left_iff.mp hslots
    obtain ⟨t, d, rfl, hi, hfree, hshaped⟩ := hslot.exists_composite hpart
    have hpath : t.follow? [i] = some u := by simp [Ty.follow?, hi]
    obtain ⟨d', hd', hshaped'⟩ := hshaped.at? hpath
    exact ⟨.value u d' :: rest, σ, by simp [step?.eq_def, hi, hd'],
      .cons (.value_normalize (Ty.pointerFree_part? hfree hi) hshaped') hrest, hσ⟩
  | @extract2 _ _ row col inner u hrow hcol =>
    obtain ⟨slot, rest, hslot, hrest, rfl⟩ := List.forall₂_cons_left_iff.mp hslots
    obtain ⟨t, d, rfl, hi, hfree, hshaped⟩ := hslot.exists_composite hrow
    have hj : inner.part? col = some u := by
      rw [Ty.part?_eq_some_iff, hcol.underlying]
      exact hcol
    have hpath : t.follow? [row, col] = some u := by simp [Ty.follow?, hi, hj]
    obtain ⟨d', hd', hshaped'⟩ := hshaped.at? hpath
    refine ⟨.value u d' :: rest, σ, by simp [step?.eq_def, hi, hj, hd'], ?_, hσ⟩
    have hfree' := Ty.pointerFree_part? (Ty.pointerFree_part? hfree hi) hj
    exact .cons (.value_normalize hfree' hshaped') hrest
  | @access _ _ i elem u hk hpart =>
    obtain ⟨slot, rest, hslot, hrest, rfl⟩ := List.forall₂_cons_left_iff.mp hslots
    obtain ⟨t, cell, path, root, rfl, rfl, hfree, hroot, hpath⟩ := hslot.exists_pointer hk
    have hi : t.part? i = some u := Ty.part?_eq_some_iff.mpr hpart
    refine ⟨.pointer u cell (path ++ [i]) :: rest, σ, by simp [step?.eq_def, hi],
      .cons ?_ hrest, hσ⟩
    exact .pointer rfl (Ty.pointerFree_part? hfree hi) hroot (Ty.follow?_concat hpath hi)
  | @construct _ t count hcount _ hbuilt =>
    have hfree := hop t count rfl
    have htop := List.forall₂_reverse_iff.mpr (List.forall₂_take count.toNat hslots)
    obtain ⟨parts, hparts, hshapes⟩ := exists_data htop (hbuilt.ne_pointer hfree)
    obtain ⟨d, hd, hshaped⟩ := hbuilt.exists_make? hshapes
    have hcount : 0 ≤ count ∧ count ≤ slots.length := by rwa [← hslots.length_eq]
    refine ⟨.value t d :: slots.drop count.toNat, σ,
      by simp [step?.eq_def, hcount, hparts, hd], ?_, hσ⟩
    exact .cons (.value_normalize hfree hshaped) (List.forall₂_drop count.toNat hslots)
  | @math _ k f hf hk =>
    obtain ⟨slot, rest, hslot, hrest, rfl⟩ := List.forall₂_cons_left_iff.mp hslots
    have hvalue : ∀ elem, k.type ≠ .pointer elem := by
      intro elem heq
      rw [heq] at hk
      cases hk
    obtain ⟨t, d, rfl, hkt, hfree, hshaped⟩ := hslot.exists_value hvalue
    rw [hkt] at hk
    obtain ⟨d', hd', hshaped'⟩ := A.exists_math? hf hk (hshaped.alike t.canon_underlying.symm)
    refine ⟨.value t d' :: rest, σ, by simp [step?.eq_def, hd'], .cons ?_ hrest, hσ⟩
    exact .value hkt hfree (hshaped'.alike t.canon_underlying)
  | narrowVec4 hk =>
    obtain ⟨slot, rest, hslot, hrest, rfl⟩ := List.forall₂_cons_left_iff.mp hslots
    obtain ⟨t, d, rfl, hkt, -, hshaped⟩ := hslot.exists_value (by rw [hk]; nofun)
    have hvec : d.Shaped .vec4 := by
      refine hshaped.alike ?_
      rw [Ty.Alike, ← t.canon_underlying, ← hkt, hk]
    obtain ⟨cs, rfl, hcs⟩ := hvec.exists_vector
    obtain ⟨x, y, z, v, rfl⟩ := List.length_eq_four.mp hcs
    refine ⟨.value .vec3 (.vector [x, y, z]) :: rest, σ, rfl, .cons ?_ hrest, hσ⟩
    exact .value rfl trivial (Data.shaped_vector rfl)
  | @binary _ left right op u hcombines =>
    obtain ⟨slot, _, hslot, htail, rfl⟩ := List.forall₂_cons_left_iff.mp hslots
    obtain ⟨slot', rest, hslot', hrest, rfl⟩ := List.forall₂_cons_left_iff.mp htail
    obtain ⟨hleft, hright, hu⟩ := hcombines.pointerFree
    obtain ⟨t, r, rfl, hkt, -, hr⟩ := hslot.exists_value hright.ne_pointer
    obtain ⟨t', l, rfl, hkt', -, hl⟩ := hslot'.exists_value hleft.ne_pointer
    rw [hkt, hkt'] at hcombines
    obtain ⟨d, hd, hshaped⟩ := A.exists_operate? hcombines
      (hl.alike t'.canon_underlying.symm) (hr.alike t.canon_underlying.symm)
    exact ⟨.value u d :: rest, σ, by simp [step?.eq_def, hd],
      .cons (.value_normalize hu hshaped) hrest, hσ⟩
  | dup =>
    obtain ⟨slot, rest, hslot, hrest, rfl⟩ := List.forall₂_cons_left_iff.mp hslots
    exact ⟨_, σ, rfl, .cons hslot hslots, hσ⟩
  | pop =>
    obtain ⟨slot, rest, -, hrest, rfl⟩ := List.forall₂_cons_left_iff.mp hslots
    exact ⟨rest, σ, rfl, hrest, hσ⟩

theorem run?_cons {op : Operation} (hop : op ≠ .ret) (ops : List Operation) (slots : List (Slot S))
    (σ : Store S) :
    Γ.run? A (op :: ops) slots σ =
      (Γ.step? A σ op slots).bind fun next => Γ.run? A ops next.1 next.2 := by
  cases op with
  | ret => exact absurd rfl hop
  | _ => rfl

/-- The result of a method has the shape of its type; a void method has none. -/
def Returns (Γ : Context) (result : Option (Data S)) : Prop :=
  if Γ.result.isVoid then result = none else ∃ d, result = some d ∧ d.Shaped Γ.result

/-- A well-typed body runs to its end. -/
theorem exists_run? (hF : F.Describes Γ) (hresult : Γ.result.PointerFree) {ks : List Key}
    {ops : List Operation} (h : F.Accepts ks ops)
    (hops : ∀ t count, .construct t count ∈ ops → t.PointerFree) {slots : List (Slot S)}
    (hslots : List.Forall₂ (Slot.Typed Γ) ks slots) (hσ : σ.Shaped Γ) :
    ∃ σ' result, Γ.run? A ops slots σ = some (σ', result) ∧ σ'.Shaped Γ ∧ Γ.Returns result := by
  -- Along the derivation that accepts the body; the store stays shaped and the slots typed.
  induction h generalizing slots σ with
  | stop hvoid =>
    rw [hF.result] at hvoid
    exact ⟨σ, none, if_pos hvoid, hσ, by rw [Returns, if_pos hvoid]⟩
  | @step ks ks' op ops hop _ ih =>
    have hne : op ≠ .ret := by
      rintro rfl
      cases hop
    obtain ⟨slots', σ', hstep, hslots', hσ'⟩ := exists_step? A hF hσ hop
      (fun t count h => hops t count (h ▸ List.mem_cons_self)) hslots
    rw [run?_cons A hne, hstep]
    exact ih (fun t count h => hops t count (List.mem_cons_of_mem _ h)) hslots' hσ'
  | ret hop =>
    cases hop with
    | ret hvoid =>
      rw [hF.result] at hvoid
      exact ⟨σ, none, if_pos hvoid, hσ, by rw [Returns, if_pos hvoid]⟩
    | retValue hvoid halike =>
      rw [hF.result] at hvoid halike
      obtain ⟨slot, rest, hslot, hrest, rfl⟩ := List.forall₂_cons_left_iff.mp hslots
      obtain ⟨t, d, rfl, hkt, -, hd⟩ := hslot.exists_value (halike.ne_pointer hresult.ne_pointer)
      refine ⟨σ, some d, by simp [run?, hvoid], hσ, ?_⟩
      rw [Returns, hvoid, if_neg nofun]
      refine ⟨d, rfl, hd.alike ?_⟩
      rw [Ty.Alike, ← t.canon_underlying, ← hkt]
      exact halike

end Context

/-! ## Programs -/

/-- Lists that are related have related elements at the same places. -/
theorem elementAt?_of_forall₂ {α β : Type} {R : α → β → Prop} {xs : List α} {ys : List β}
    (h : List.Forall₂ R xs ys) {n : Int} {y : β} (hn : elementAt? ys n = some y) :
    ∃ x, elementAt? xs n = some x ∧ R x y := by
  cases n with
  | negSucc n => cases hn
  | ofNat n =>
    obtain ⟨hlt, rfl⟩ := List.getElem?_eq_some_iff.mp hn
    have hlt' : n < xs.length := by rwa [h.length_eq]
    exact ⟨xs[n], List.getElem?_eq_getElem hlt', (List.forall₂_iff_get.mp h).2 n hlt' hlt⟩

/-- The keys of a program describe the cells that its methods work on. -/
theorem Method.describes {m : Method} (hm : m.EachType Ty.PointerFree) {fields : List Field}
    (hfields : ∀ f ∈ fields, f.type.PointerFree) {keys : List Key}
    (hkeys : List.Forall₂ Field.WellTyped fields keys) :
    Frame.Describes ⟨m.result, keys, m.locals.map fun l => (Key.pointer l.type .function).normalize⟩
      (m.context fields) where
  fields := by
    intro n k hn
    obtain ⟨f, hf, hwt⟩ := elementAt?_of_forall₂ hkeys hn
    obtain ⟨storage, hk, -⟩ := hwt.place
    refine ⟨f.type, ?_, by rw [hk]; rfl, hfields f (mem_of_elementAt? hf)⟩
    rw [context, elementAt?_map, hf]
    rfl
  locals := by
    intro n k hn
    rw [elementAt?_map] at hn
    obtain ⟨l, hl, rfl⟩ := Option.map_eq_some_iff.mp hn
    refine ⟨l.type, ?_, rfl, hm.locals l (mem_of_elementAt? hl)⟩
    rw [context, elementAt?_map, hl]
    rfl
  result := rfl

/-- The methods of a well-typed program run to their ends, from every store of the right shapes. -/
theorem Program.WellTyped.exists_run? {S : Type} (A : ScalarOps S) {p : Program} (hp : p.WellTyped)
    (hpointers : p.EachType Ty.PointerFree) {m : Method} (hm : m ∈ p.methods) {σ : Store S}
    (hσ : σ.Shaped (m.context p.fields)) :
    ∃ σ' result, m.run? A p.fields σ = some (σ', result) ∧ σ'.Shaped (m.context p.fields) ∧
      (m.context p.fields).Returns result := by
  obtain ⟨keys, hkeys, hmethods⟩ := hp.body
  have hfree := hpointers.methods m hm
  exact Context.exists_run? A (m.describes hfree hpointers.fields hkeys) hfree.result
    (hmethods m hm).body hfree.constructs .nil hσ

end ShaderStage
