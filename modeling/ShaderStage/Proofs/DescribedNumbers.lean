import ShaderStage.Description.Basic
import ShaderStage.Proofs.Computations
import ShaderStage.Proofs.Wording

/-! # Numbers of a description

A description gives its numbers as integers and the program keeps them in 32 bits. A negative number
is refused, or stands for no number at all; a number that needs more than 32 bits is taken, and the
program keeps only its last 32.

* `numbers_keptIn_of_parse`: what a program keeps of the numbers in its description;
* `numbers_wrap`: a number that loses its upper bits. -/

namespace ShaderStage.Description

/-- The word keeps the number: its last 32 bits, which are all of it exactly if it fits. -/
structure KeptIn (n : Int) (w : UInt32) : Prop where
  nonneg : 0 ≤ n
  residue : (w.toNat : Int) = n % 4294967296
  whole_iff : (w.toNat : Int) = n ↔ n < 4294967296

/-- A number that may be left out is left out exactly if it is negative, and kept otherwise. -/
structure OptionallyKept (n : Int) (w? : Option UInt32) : Prop where
  none_iff : w? = none ↔ n < 0
  kept : ∀ w ∈ w?, KeptIn n w

/-- The numbers of stage options; dimensions that are not given are zero. -/
structure OptionsOutline.KeptIn (o : OptionsOutline) (options : StageOptions) : Prop where
  maxVertices : Description.KeptIn o.maxVertices options.maxVertices
  patchVertices : Description.KeptIn o.patchVertices options.patchVertices
  workgroup : List.Forall₂ Description.KeptIn
    (o.workgroup ++ List.replicate (3 - o.workgroup.length) 0)
    [options.workgroup.x, options.workgroup.y, options.workgroup.z]

/-- The numbers of a layout. -/
structure LayoutOutline.KeptIn (o : LayoutOutline) (layout : Layout) : Prop where
  location : Description.KeptIn o.location layout.location
  descriptorSet : Description.KeptIn o.descriptorSet layout.descriptorSet
  binding : OptionallyKept o.binding layout.binding
  align : OptionallyKept o.align layout.align
  offset : OptionallyKept o.offset layout.offset
  specId : OptionallyKept o.specId layout.specId

/-- The numbers of a program: those of its options and those of the layout of each field. -/
structure ProgramOutline.KeptIn (o : ProgramOutline) (p : Program) : Prop where
  options : ∀ options ∈ o.options, options.KeptIn p.options
  fields : List.Forall₂ (fun o f => Option.Rel LayoutOutline.KeptIn o.layout f.layout)
    o.fields p.fields

/-! ## Words -/

/-- The word of a number has lost multiples of 2^32. -/
theorem toNat_toWord (n : Int) : ((toWord n).toNat : Int) = n % 4294967296 := by
  rw [toWord, UInt32.ofInt, UInt32.toNat_ofNat']
  omega

/-- A number that is not negative is kept. -/
theorem keptIn_toWord {n : Int} (hn : 0 ≤ n) : KeptIn n (toWord n) := by
  constructor
  · exact hn
  · exact toNat_toWord n
  · rw [toNat_toWord]
    omega

/-- A number is kept, or stands for none. -/
theorem optionallyKept_optionalIndex (n : Int) : OptionallyKept n (optionalIndex n) := by
  unfold optionalIndex
  split
  case isTrue hn =>
    constructor
    · exact iff_of_true rfl hn
    · rintro w ⟨⟩
  case isFalse hn =>
    constructor
    · exact iff_of_false (Option.some_ne_none _) hn
    · rintro w ⟨⟩
      exact keptIn_toWord (Int.not_lt.mp hn)

/-! ## Reading -/

/-- The sizes are kept. -/
theorem forall₂_dimensions {index : Nat} {sizes : List Int} {words : List UInt32}
    (h : dimensions index sizes = .ok words) : List.Forall₂ KeptIn sizes words := by
  induction sizes generalizing index words with
  | nil => cases h; exact .nil
  | cons n rest ih =>
    by_cases hn : n < 0
    · simp only [dimensions, if_pos hn] at h
      cases h
    · simp only [dimensions, if_neg hn] at h
      obtain ⟨words, hwords, h⟩ := except_bind_eq_ok h
      cases h
      exact .cons (keptIn_toWord (Int.not_lt.mp hn)) (ih hwords)

/-- The sizes of a workgroup are kept, and those left out are zero. -/
theorem forall₂_parseWorkgroup {sizes : List Int} {g : Workgroup}
    (h : parseWorkgroup sizes = .ok g) :
    List.Forall₂ KeptIn (sizes ++ List.replicate (3 - sizes.length) 0) [g.x, g.y, g.z] := by
  by_cases hlength : 3 < sizes.length
  · simp only [parseWorkgroup, if_pos hlength] at h
    cases h
  · simp only [parseWorkgroup, if_neg hlength] at h
    obtain ⟨words, hwords, h⟩ := except_bind_eq_ok h
    cases h
    have hzero : KeptIn 0 0 := keptIn_toWord (n := 0) (Int.le_refl 0)
    -- There are at most three dimensions, and the missing ones are zero on both sides.
    rcases forall₂_dimensions hwords with _ | ⟨hx, _ | ⟨hy, _ | ⟨hz, _ | ⟨_, _⟩⟩⟩⟩
    · exact .cons hzero (.cons hzero (.cons hzero .nil))
    · exact .cons hx (.cons hzero (.cons hzero .nil))
    · exact .cons hx (.cons hy (.cons hzero .nil))
    · exact .cons hx (.cons hy (.cons hz .nil))
    · simp only [List.length_cons] at hlength
      omega

/-- The numbers among the options are kept. -/
theorem keptIn_parseOptions {o : OptionsOutline} {options : StageOptions}
    (h : parseOptions o = .ok options) : o.KeptIn options := by
  obtain ⟨origin, _, h⟩ := except_bind_eq_ok h
  obtain ⟨input, _, h⟩ := except_bind_eq_ok h
  obtain ⟨output, _, h⟩ := except_bind_eq_ok h
  split at h
  case isTrue => cases h
  case isFalse hvertices =>
    obtain ⟨workgroup, hworkgroup, h⟩ := except_bind_eq_ok h
    cases h
    constructor
    · exact keptIn_toWord (by omega)
    · exact keptIn_toWord (by omega)
    · exact forall₂_parseWorkgroup hworkgroup

/-- The numbers in a layout are kept. -/
theorem keptIn_parseLayout {o : LayoutOutline} {layout : Layout}
    (h : parseLayout o = .ok layout) : o.KeptIn layout := by
  unfold parseLayout at h
  split at h
  case isTrue => cases h
  case isFalse hnegative =>
    obtain ⟨builtin, _, h⟩ := except_bind_eq_ok h
    cases h
    constructor
    · exact keptIn_toWord (by omega)
    · exact keptIn_toWord (by omega)
    all_goals exact optionallyKept_optionalIndex _

/-- A field keeps its layout. -/
theorem rel_layout_parseField {declared : Declared} {o : FieldOutline} {field : Field}
    (h : parseField declared o = .ok field) :
    Option.Rel LayoutOutline.KeptIn o.layout field.layout := by
  obtain ⟨type, _, h⟩ := except_bind_eq_ok h
  obtain ⟨layout?, hlayout, h⟩ := except_bind_eq_ok h
  cases h
  refine rel_of_mapM ?_ hlayout
  intro l layout hl
  exact keptIn_parseLayout (except_mapError_eq_ok_iff.mp hl)

/-- All numbers of a description are kept. -/
theorem keptIn_toProgram {o : ProgramOutline} {p : Program} (h : o.toProgram = .ok p) :
    o.KeptIn p := by
  obtain ⟨stage, _, h⟩ := except_bind_eq_ok h
  obtain ⟨options?, hoptions, h⟩ := except_bind_eq_ok h
  obtain ⟨enums, _, h⟩ := except_bind_eq_ok h
  obtain ⟨declared, _, h⟩ := except_bind_eq_ok h
  obtain ⟨fields, hfields, h⟩ := except_bind_eq_ok h
  obtain ⟨methods, _, h⟩ := except_bind_eq_ok h
  cases h
  constructor
  · intro outline houtline
    rw [Option.mem_def.mp houtline] at hoptions
    obtain ⟨options, hread, hsome⟩ := except_bind_eq_ok hoptions
    cases hsome
    exact keptIn_parseOptions (except_mapError_eq_ok_iff.mp hread)
  · exact forall₂_of_mapM (fun _ _ => rel_layout_parseField) hfields

/-- The numbers of options, of layouts and so of programs are those of the description, as far as 32
bits hold them. -/
theorem numbers_keptIn_of_parse (o : OptionsOutline) (l : LayoutOutline) (p : ProgramOutline) :
    (∀ options, parseOptions o = .ok options → o.KeptIn options) ∧
    (∀ layout, parseLayout l = .ok layout → l.KeptIn layout) ∧
    ∀ program, p.toProgram = .ok program → p.KeptIn program := by
  refine ⟨?_, ?_, ?_⟩
  · intro options h
    exact keptIn_parseOptions h
  · intro layout h
    exact keptIn_parseLayout h
  · intro program h
    exact keptIn_toProgram h

/-- A work group of two dimensions, and a layout without a binding. -/
theorem numbers_keptIn_of_parse_example :
    let o : OptionsOutline := ⟨"", false, true, "points", "", 3, 4294967295, [8, 4294967297]⟩
    let l : LayoutOutline := ⟨7, -1, 2, 16, 4294967300, false, "", 0, "in"⟩
    let p : ProgramOutline :=
      ⟨"tint", "fragment", some o, [], [], [⟨"color", "vec4", some l⟩], []⟩
    o.KeptIn
      { earlyFragmentTests := true, maxVertices := 3, patchVertices := 4294967295,
        workgroup := ⟨8, 1, 0⟩ } ∧
    l.KeptIn
      { location := 7, descriptorSet := 2, align := some 16, offset := some 4, specId := some 0,
        direction := .input } ∧
    ∃ program, p.toProgram = .ok program ∧ p.KeptIn program := by
  intro o l p
  obtain ⟨hoptions, hlayout, hprogram⟩ := numbers_keptIn_of_parse o l p
  refine ⟨hoptions _ (by decide), hlayout _ (by decide), ?_⟩
  have hread : p.toProgram.isOk = true := by decide +kernel
  cases hp : p.toProgram with
  | error e =>
    rw [hp] at hread
    cases hread
  | ok program => exact ⟨program, rfl, hprogram program hp⟩

/-- Five vertices and 2^32 are read as five, and location 2^32 as the first. -/
theorem numbers_wrap :
    parseOptions ⟨"", false, false, "", "", 4294967301, 0, []⟩ = .ok { maxVertices := 5 } ∧
    parseLayout ⟨4294967296, -1, 0, -1, -1, false, "", -1, ""⟩ = .ok {} :=
  ⟨by decide, by decide⟩

end ShaderStage.Description
