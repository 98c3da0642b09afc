import ShaderStage.Description.Basic
import ShaderStage.Proofs.OperationLines

/-! # Declared names

Enumerations and structures are declared one after the other, and every table of declared names goes
on from the one before. So a name keeps its type, in the structures that follow and in the fields
and methods of the program. What a type expression makes of the name is another matter: names that
are spelled like built-in types, that end like an array or that have blanks around them can be
declared, but they are not what the reader of types looks up.

* `declared_name_denotes`: a usable name denotes the type that was declared with it;
* `declared_name_hidden`: a name that is not usable denotes something else. -/

namespace ShaderStage

open Text (Blanks Trimmed Spaced)

/-- The name of the declared type that a type is, or is an array of. -/
def Ty.title? : Ty → Option String
  | .array elem _ => elem.title?
  | .struct name _ | .enum name _ => some name
  | _ => none

/-- Arrays are called by the name of their elements. -/
theorem Ty.title?_foldl_array (lengths : List UInt32) (t : Ty) :
    (lengths.foldl .array t).title? = t.title? := by
  induction lengths generalizing t with
  | nil => rfl
  | cons n lengths ih =>
    rw [List.foldl_cons, ih]
    rfl

namespace Description

/-! ## Declarations -/

/-- A declaration of a type. -/
inductive Declaration where
  | enum (o : EnumOutline)
  | struct (o : StructOutline)

namespace Declaration

def name : Declaration → String
  | .enum o => o.name
  | .struct o => o.name

/-- Makes the declaration. -/
def declare (declared : Declared) : Declaration → Except DescriptionError Declared
  | .enum o => declareEnum declared o
  | .struct o => declareStruct declared o

/-- What is declared, if the types in it are read with the table. -/
inductive Declares (declared : Declared) : Declaration → Ty → Prop
  | enum {o : EnumOutline} {t : IntTy} (h : parseType declared o.underlying.toList = .ok (.int t)) :
      Declares declared (.enum o) (.enum o.name t)
  | struct {o : StructOutline} {members : Members}
      (h : List.Forall₂ (fun (m : MemberOutline) (member : String × Ty) =>
        member.1 = m.name ∧ parseType declared m.type.toList = .ok member.2)
        o.members members.toList) :
      Declares declared (.struct o) (.struct o.name members)

/-- A declared type is called by its own name. -/
theorem Declares.title? {declared : Declared} {d : Declaration} {t : Ty}
    (h : d.Declares declared t) : t.title? = some d.name := by
  cases h with
  | enum h => rfl
  | struct h => rfl

end Declaration

/-- Makes declarations one after the other. -/
def declareAll (declared : Declared) (ds : List Declaration) : Except DescriptionError Declared :=
  ds.foldlM Declaration.declare declared

/-- The declarations of a description. -/
def ProgramOutline.declarations (o : ProgramOutline) : List Declaration :=
  o.enums.map .enum ++ o.structs.map .struct

/-- Declarations can be cut anywhere. -/
theorem declareAll_append {declared declared' : Declared} {ds ds' : List Declaration}
    (h : declareAll declared (ds ++ ds') = .ok declared') :
    ∃ between, declareAll declared ds = .ok between ∧ declareAll between ds' = .ok declared' := by
  rw [declareAll, List.foldlM_append] at h
  exact except_bind_eq_ok h

theorem declareAll_cons {declared declared' : Declared} {d : Declaration} {ds : List Declaration}
    (h : declareAll declared (d :: ds) = .ok declared') :
    ∃ between, d.declare declared = .ok between ∧ declareAll between ds = .ok declared' := by
  rw [declareAll, List.foldlM_cons] at h
  exact except_bind_eq_ok h

/-- A name is declared if it is not empty and new. -/
theorem declare_eq_ok {declared declared' : Declared} {name : String} {t : Ty}
    (h : declare declared name t = .ok declared') :
    name ≠ "" ∧ declared.lookup name = none ∧ declared' = (name, t) :: declared := by
  unfold declare at h
  split at h
  · cases h
  · next hname =>
    split at h
    · cases h
    · next hnew =>
      cases h
      exact ⟨hname, Option.not_isSome_iff_eq_none.mp hnew, rfl⟩

/-- Each member has the type that its text denotes. -/
theorem forall₂_parseMembers {declared : Declared} {struct : String} {os : List MemberOutline}
    {members : Members} (h : parseMembers declared struct os = .ok members) :
    List.Forall₂ (fun (m : MemberOutline) (member : String × Ty) =>
      member.1 = m.name ∧ parseType declared m.type.toList = .ok member.2) os members.toList := by
  induction os generalizing members with
  | nil =>
    cases h
    exact .nil
  | cons o os ih =>
    obtain ⟨t, ht, h⟩ := except_bind_eq_ok h
    obtain ⟨rest, hrest, h⟩ := except_bind_eq_ok h
    cases h
    exact .cons ⟨rfl, except_mapError_eq_ok_iff.mp ht⟩ (ih hrest)

/-- A declaration that is made adds its name and its type to the table. -/
theorem Declaration.declare_eq_ok {declared declared' : Declared} {d : Declaration}
    (h : d.declare declared = .ok declared') :
    ∃ t, d.Declares declared t ∧ d.name ≠ "" ∧ declared.lookup d.name = none ∧
      declared' = (d.name, t) :: declared := by
  cases d with
  | enum o =>
    obtain ⟨t, ht, h⟩ := except_bind_eq_ok h
    split at h
    · next t =>
      exact ⟨_, .enum (except_mapError_eq_ok_iff.mp ht), Description.declare_eq_ok h⟩
    · cases h
  | struct o =>
    obtain ⟨members, hmembers, h⟩ := except_bind_eq_ok h
    exact ⟨_, .struct (forall₂_parseMembers hmembers), Description.declare_eq_ok h⟩

/-! ## Tables -/

/-- Every name in the table stands for a type of that name. -/
def Declared.Titled (declared : Declared) : Prop :=
  ∀ name t, declared.lookup name = some t → t.title? = some name

/-- The table has all that the other has. -/
def Declared.Extends (declared' declared : Declared) : Prop :=
  ∀ name t, declared.lookup name = some t → declared'.lookup name = some t

/-- Declaring a type adds it under its own name. -/
theorem titled_declare {declared declared' : Declared} {d : Declaration}
    (h : d.declare declared = .ok declared') (htitled : declared.Titled) : declared'.Titled := by
  obtain ⟨t, ht, -, -, rfl⟩ := d.declare_eq_ok h
  intro name u hlookup
  rw [List.lookup_cons] at hlookup
  split at hlookup
  · next hname =>
    cases hlookup
    rw [eq_of_beq hname]
    exact ht.title?
  · exact htitled name u hlookup

/-- Declaring a type changes no other. -/
theorem extends_declare {declared declared' : Declared} {d : Declaration}
    (h : d.declare declared = .ok declared') : declared'.Extends declared := by
  obtain ⟨t, -, -, hnew, rfl⟩ := d.declare_eq_ok h
  intro name u hlookup
  have hother : name ≠ d.name := by
    rintro rfl
    rw [hnew] at hlookup
    cases hlookup
  rw [List.lookup_cons, beq_false_of_ne hother]
  exact hlookup

/-- Later tables go on from the earlier ones. -/
theorem extends_declareAll {declared declared' : Declared} {ds : List Declaration}
    (h : declareAll declared ds = .ok declared') : declared'.Extends declared := by
  induction ds generalizing declared with
  | nil =>
    cases h
    intro name t hlookup
    exact hlookup
  | cons d ds ih =>
    obtain ⟨between, hd, hds⟩ := declareAll_cons h
    intro name t hlookup
    exact ih hds name t (extends_declare hd name t hlookup)

/-- After all declarations, types stand under their own names. -/
theorem titled_declareAll {declared declared' : Declared} {ds : List Declaration}
    (h : declareAll declared ds = .ok declared') (htitled : declared.Titled) :
    declared'.Titled := by
  induction ds generalizing declared with
  | nil =>
    cases h
    exact htitled
  | cons d ds ih =>
    obtain ⟨between, hd, hds⟩ := declareAll_cons h
    exact ih hds (titled_declare hd htitled)

/-! ## Expressions -/

/-- The text is the name with suffixes of these lengths, with blanks around the parts. -/
inductive Spells (name : String) : List Char → List UInt32 → Prop
  | intro {lead trail : List Char} {suffixes : List Suffix} {lengths : List UInt32}
      (hlead : Blanks lead) (htrail : Blanks trail)
      (hsuffixes : List.Forall₂ Suffix.Denotes suffixes lengths) :
      Spells name (lead ++ (name.toList ++ (trail ++ suffixes.flatMap Suffix.text))) lengths

/-- The name is one that expressions look up: it is not built in, has no blanks around it and does
not end like an array. -/
structure Usable (name : String) : Prop where
  other : spellings.lookup name = none
  trimmed : Trimmed name.toList
  last : name.toList.getLast? ≠ some ']'

instance (name : String) : Decidable (Usable name) :=
  decidable_of_iff (spellings.lookup name = none ∧ Trimmed name.toList ∧
    name.toList.getLast? ≠ some ']')
    ⟨fun h => ⟨h.1, h.2.1, h.2.2⟩, fun h => ⟨h.other, h.trimmed, h.last⟩⟩

/-- A usable name is looked up as it is. -/
theorem Usable.names {declared : Declared} {name : String} {t : Ty} (h : Usable name)
    (hlookup : declared.lookup name = some t) : Names declared name.toList t := by
  have hself : String.ofList name.toList = name := String.ofList_toList
  refine .declared ?_ h.trimmed h.last ?_
  · rw [hself]
    exact h.other
  · rwa [hself]

theorem title?_spellings : spellings.all (fun s => s.2.title?.isNone) = true := by
  decide

/-- Only a usable name stands for a type of that name. -/
theorem Names.usable {declared : Declared} (htitled : declared.Titled) {text : List Char} {t : Ty}
    {name : String} (h : Names declared text t) (ht : t.title? = some name) : Usable name := by
  cases h with
  | builtin h =>
    have hnone := List.all_eq_true.mp title?_spellings _ (mem_of_lookup h)
    rw [ht] at hnone
    cases hnone
  | declared hother htrimmed hlast h =>
    have hname := htitled _ _ h
    rw [ht] at hname
    cases hname
    refine ⟨hother, ?_, ?_⟩
    · rwa [String.toList_ofList]
    · rwa [String.toList_ofList]

/-- An expression made of a declared name has the declared type if the name is usable, and only
then: what is read in the other cases is a type of another name, or of none. -/
theorem parseType_spells_iff {declared : Declared} (htitled : declared.Titled) {name : String}
    {t : Ty} (hname : name ≠ "") (hlookup : declared.lookup name = some t) {text : List Char}
    {lengths : List UInt32} (htext : Spells name text lengths) :
    parseType declared text = .ok (lengths.foldl .array t) ↔ Usable name := by
  constructor
  · intro h
    -- A declared type bears its own name, so the name that was read can only be this one.
    have htitle : (lengths.foldl .array t).title? = some name := by
      rw [Ty.title?_foldl_array]
      exact htitled name t hlookup
    generalize lengths.foldl .array t = u at h htitle
    obtain ⟨_, hnames, _, _, _⟩ := denotes_of_parseType text h
    rw [Ty.title?_foldl_array] at htitle
    exact hnames.usable htitled htitle
  · intro h
    obtain ⟨hlead, htrail, hsuffixes⟩ := htext
    refine (Denotes.intro hlead (h.names hlookup) htrail hsuffixes ?_).parseType_eq
    intro hempty
    exact absurd (String.toList_eq_nil_iff.mp hempty) hname

/-! ## Programs -/

/-- The types of the method are those that are written in it, read with the table. A local is
written as a type, or as a name, a colon and a type. -/
structure MethodOutline.TypedWith (declared : Declared) (o : MethodOutline) (m : Method) :
    Prop where
  result : o.returns ≠ "" → o.returns ≠ "void" → parseType declared o.returns.toList = .ok m.result
  locals : List.Forall₂ (fun (text : String) (l : Local) => ∀ name type,
    (text.toList = type ∧ ':' ∉ type ∨ text.toList = name ++ ':' :: type ∧ ':' ∉ name) →
      parseType declared type = .ok l.type) o.locals m.locals
  body : List.Forall₂ (fun (line : String) (op : Operation) => ∀ a b,
    Spaced line.toList ["construct".toList, a, b] →
      ∃ type count, op = .construct type count ∧ parseType declared a = .ok type) o.body m.body

/-- The types of the program are those that are written in it, read with the table. -/
structure ProgramOutline.TypedWith (declared : Declared) (o : ProgramOutline) (p : Program) :
    Prop where
  fields : List.Forall₂ (fun (o : FieldOutline) (field : Field) =>
    parseType declared o.type.toList = .ok field.type) o.fields p.fields
  methods : List.Forall₂ (MethodOutline.TypedWith declared) o.methods p.methods

/-- A field has the type that its text denotes. -/
theorem parseField_type {declared : Declared} {o : FieldOutline} {field : Field}
    (h : parseField declared o = .ok field) :
    parseType declared o.type.toList = .ok field.type := by
  obtain ⟨type, htype, h⟩ := except_bind_eq_ok h
  obtain ⟨layout, _, h⟩ := except_bind_eq_ok h
  cases h
  exact except_mapError_eq_ok_iff.mp htype

/-- A result has the type that its text denotes. -/
theorem parseResult_type {declared : Declared} {text : String} {t : Ty}
    (h : parseResult declared text = .ok t) (hempty : text ≠ "") (hvoid : text ≠ "void") :
    parseType declared text.toList = .ok t := by
  rw [parseResult, if_neg (not_or.mpr ⟨hempty, hvoid⟩)] at h
  exact except_mapError_eq_ok_iff.mp h

/-- A local has the type that the text after its name denotes. -/
theorem parseLocal_type {declared : Declared} {text : String} {l : Local}
    (h : parseLocal declared text = .ok l) {name type : List Char}
    (htext : text.toList = type ∧ ':' ∉ type ∨ text.toList = name ++ ':' :: type ∧ ':' ∉ name) :
    parseType declared type = .ok l.type := by
  have hpass : ∀ {cs : List Char}, ':' ∉ cs → ∀ c ∈ cs, decide (c ≠ ':') = true := by
    intro cs hcs c hc
    rw [decide_eq_true_eq]
    rintro rfl
    exact hcs hc
  obtain ⟨t, ht, h⟩ := except_bind_eq_ok h
  cases h
  have hread := except_mapError_eq_ok_iff.mp ht
  rcases htext with ⟨htext, hcolon⟩ | ⟨htext, hcolon⟩
  · rw [htext, List.dropWhile_eq_nil_iff.mpr (hpass hcolon)] at hread
    exact hread
  · rw [htext, List.dropWhile_append_of_pos (hpass hcolon)] at hread
    exact hread

/-- The type of a composite is read from the line. -/
theorem parseOperation_construct {s : LineScope} {line a b : List Char} {op : Operation}
    (h : parseOperation s line = .ok op) (hline : Spaced line ["construct".toList, a, b]) :
    ∃ type count, op = .construct type count ∧ parseType s.declared a = .ok type := by
  rw [parseOperation, hline.words_eq] at h
  have hwords : parseWords s "construct" [a, b] = .ok op := h
  rw [parseWords_binary rfl rfl rfl] at hwords
  obtain ⟨type, htype, hwords⟩ := except_bind_eq_ok hwords
  obtain ⟨count, _, hwords⟩ := except_bind_eq_ok hwords
  cases hwords
  exact ⟨type, count, rfl, except_mapError_eq_ok_iff.mp htype⟩

/-- Each line becomes one operation. -/
theorem forall₂_parseBody {s : LineScope} {index : Nat} {lines : List String} {ops : List Operation}
    (h : parseBody s index lines = .ok ops) :
    List.Forall₂ (fun (line : String) op => parseOperation s line.toList = .ok op) lines ops := by
  induction lines generalizing index ops with
  | nil =>
    cases h
    exact .nil
  | cons line lines ih =>
    obtain ⟨op, hop, h⟩ := except_bind_eq_ok h
    obtain ⟨rest, hrest, h⟩ := except_bind_eq_ok h
    cases h
    exact .cons (except_mapError_eq_ok_iff.mp hop) (ih hrest)

/-- The types of a method are read from its texts. -/
theorem typedWith_parseMethod {s : LineScope} {o : MethodOutline} {m : Method}
    (h : parseMethod s o = .ok m) : o.TypedWith s.declared m := by
  obtain ⟨result, hresult, h⟩ := except_bind_eq_ok h
  obtain ⟨locals, hlocals, h⟩ := except_bind_eq_ok h
  obtain ⟨body, hbody, h⟩ := except_bind_eq_ok h
  cases h
  constructor
  · intro hempty hvoid
    exact parseResult_type hresult hempty hvoid
  · refine forall₂_of_mapM ?_ hlocals
    intro text l hl name type htext
    exact parseLocal_type hl htext
  · refine (forall₂_parseBody hbody).imp ?_
    intro line op hop a b hline
    exact parseOperation_construct hop hline

/-- A program is made of one table, in which all declarations were made. -/
theorem exists_declareAll_of_toProgram {o : ProgramOutline} {p : Program}
    (h : o.toProgram = .ok p) :
    ∃ declared, declareAll [] o.declarations = .ok declared ∧ o.TypedWith declared p := by
  obtain ⟨stage, _, h⟩ := except_bind_eq_ok h
  obtain ⟨options?, _, h⟩ := except_bind_eq_ok h
  obtain ⟨enums, henums, h⟩ := except_bind_eq_ok h
  obtain ⟨declared, hstructs, h⟩ := except_bind_eq_ok h
  obtain ⟨fields, hfields, h⟩ := except_bind_eq_ok h
  obtain ⟨methods, hmethods, h⟩ := except_bind_eq_ok h
  cases h
  refine ⟨declared, ?_, ?_, ?_⟩
  · have hall : (o.enums.map Declaration.enum).foldlM Declaration.declare [] = .ok enums := by
      rw [List.foldlM_map]
      exact henums
    rw [declareAll, ProgramOutline.declarations, List.foldlM_append, hall]
    show (o.structs.map Declaration.struct).foldlM Declaration.declare enums = _
    rw [List.foldlM_map]
    exact hstructs
  · exact forall₂_of_mapM (fun _ _ => parseField_type) hfields
  · refine forall₂_of_mapM ?_ hmethods
    intro m method hm
    exact typedWith_parseMethod (except_mapError_eq_ok_iff.mp hm)

/-- In a program that is read, each declaration gives its name a type, made of what was declared
before. The name keeps the type in every later table, up to the one that the fields and the methods
are read with. Type expressions made of the name have that type, or are arrays of it, exactly if the
name is usable. -/
theorem declared_name_denotes (o : ProgramOutline) (p : Program) (h : o.toProgram = .ok p) :
    ∃ declared, declareAll [] o.declarations = .ok declared ∧ o.TypedWith declared p ∧
      ∀ before d after, o.declarations = before ++ d :: after →
        ∃ table t, declareAll [] before = .ok table ∧ d.Declares table t ∧
          ∀ between rest, after = between ++ rest →
            ∃ later, declareAll [] (before ++ d :: between) = .ok later ∧
              later.lookup d.name = some t ∧
              ∀ text lengths, Spells d.name text lengths →
                (parseType later text = .ok (lengths.foldl .array t) ↔ Usable d.name) := by
  obtain ⟨declared, hdeclared, htyped⟩ := exists_declareAll_of_toProgram h
  refine ⟨declared, hdeclared, htyped, ?_⟩
  intro before d after hsplit
  rw [hsplit] at hdeclared
  obtain ⟨table, hbefore, hafter⟩ := declareAll_append hdeclared
  obtain ⟨next, hd, -⟩ := declareAll_cons hafter
  obtain ⟨t, ht, hname, -, hnext⟩ := d.declare_eq_ok hd
  refine ⟨table, t, hbefore, ht, ?_⟩
  rintro between rest rfl
  have hregroup : before ++ d :: (between ++ rest) = (before ++ d :: between) ++ rest := by simp
  rw [hregroup] at hdeclared
  obtain ⟨later, hlater, -⟩ := declareAll_append hdeclared
  refine ⟨later, hlater, ?_⟩
  have htitled : later.Titled := titled_declareAll hlater (by rintro name u ⟨⟩)
  have hlookup : later.lookup d.name = some t := by
    obtain ⟨table', hbefore', hrest⟩ := declareAll_append hlater
    obtain ⟨next', hd', hbetween⟩ := declareAll_cons hrest
    rw [hbefore] at hbefore'
    cases hbefore'
    rw [hd] at hd'
    cases hd'
    -- What is declared in between does not change the entry.
    apply extends_declareAll hbetween
    rw [hnext]
    exact List.lookup_cons_self
  exact ⟨hlookup, fun text lengths htext => parseType_spells_iff htitled hname hlookup htext⟩

/-- A structure of an enumeration, used by a later structure. -/
theorem declared_name_denotes_light :
    let o : ProgramOutline :=
      ⟨"lit", "vertex", none, [⟨"Mode", "uint"⟩],
        [⟨"Light", [⟨"mode", "Mode"⟩]⟩, ⟨"Scene", [⟨"lights", " Light [4]"⟩]⟩],
        [⟨"scene", "Scene[2]", none⟩], []⟩
    Usable "Light" ∧ ∃ p declared t, o.toProgram = .ok p ∧
      declareAll [] o.declarations = .ok declared ∧
        parseType declared "Light[4]".toList = .ok (.array t 4) := by
  intro o
  have husable : Usable "Light" := by decide
  have hread : o.toProgram.isOk = true := by decide +kernel
  cases hp : o.toProgram with
  | error e =>
    rw [hp] at hread
    cases hread
  | ok p =>
    obtain ⟨-, -, -, hnames⟩ := declared_name_denotes o p hp
    obtain ⟨-, t, -, -, hlater⟩ :=
      hnames [.enum ⟨"Mode", "uint"⟩] (.struct ⟨"Light", [⟨"mode", "Mode"⟩]⟩) _ rfl
    obtain ⟨declared, hdeclared, -, hspells⟩ := hlater _ [] (List.append_nil _).symm
    have htext : Spells "Light" "Light[4]".toList [4] :=
      .intro Text.blanks_nil Text.blanks_nil (.cons (Suffix.denotes_ofLength 4) .nil)
    exact ⟨husable, p, declared, t, rfl, hdeclared, (hspells _ _ htext).mpr husable⟩

/-- A structure called like a built-in type, and one with a blank in front of a declared name: the
fields are a float and the other structure. -/
theorem declared_name_hidden :
    let o : ProgramOutline :=
      ⟨"t", "vertex", none, [],
        [⟨"float", [⟨"x", "int"⟩]⟩, ⟨"S", [⟨"x", "int"⟩]⟩, ⟨" S", [⟨"y", "bool"⟩]⟩],
        [⟨"f", "float", none⟩, ⟨"g", " S", none⟩], []⟩
    o.toProgram.toOption.map (fun p => p.fields.map (·.type)) =
      some [.float32, .struct "S" (.cons "x" .int32 .nil)] := by
  decide +kernel

end Description

end ShaderStage
