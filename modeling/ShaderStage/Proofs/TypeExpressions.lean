import ShaderStage.Description.TypeExpr
import ShaderStage.Proofs.Computations
import ShaderStage.Proofs.Wording

/-! # Type expressions and their grammar

A type is written as a name and a number of lengths in brackets, with blanks around each part. The
grammar says so for whole texts, from left to right; the reader goes from right to left and takes
one pair of brackets off the end at a time. The two agree: a text is read exactly if the grammar has
it, and as the type that the grammar gives it. So a type that is written down is read back.

* `Denotes`: the grammar of type expressions;
* `parseType_eq_ok_iff`: the texts that are read;
* `parseType_agrees`: reading undoes writing. -/

namespace ShaderStage.Description

open Text (Blanks Trimmed Numeral)

/-! ## The grammar -/

/-- The name stands for the type. The built-in spellings come first; a declared name counts if it
has no blanks around it and does not end like an array. -/
inductive Names (declared : Declared) (name : List Char) (t : Ty) : Prop
  | builtin (h : spellings.lookup (.ofList name) = some t)
  | declared (hother : spellings.lookup (.ofList name) = none) (htrimmed : Trimmed name)
      (hlast : name.getLast? ≠ some ']') (h : declared.lookup (.ofList name) = some t)

/-- A length in brackets, with blanks inside the brackets and behind them. -/
structure Suffix where
  before : List Char
  digits : List Char
  after : List Char
  behind : List Char

/-- The text of a suffix. -/
def Suffix.text (s : Suffix) : List Char :=
  '[' :: (s.before ++ (s.digits ++ s.after)) ++ ']' :: s.behind

/-- The suffix gives the length: a numeral that fits into 32 bits, or zero if there is none. -/
structure Suffix.Denotes (s : Suffix) (length : UInt32) : Prop where
  before : Blanks s.before
  after : Blanks s.after
  behind : Blanks s.behind
  length : s.digits = [] ∧ length = 0 ∨ Numeral s.digits length.toNat

/-- The text is a name and suffixes, with blanks around each part, and stands for the arrays that
the suffixes make of the named type, the first one innermost. The empty name, which nothing can be
declared under, takes no suffix. -/
inductive Denotes (declared : Declared) : List Char → Ty → Prop
  | intro {lead name trail : List Char} {suffixes : List Suffix} {base : Ty} {lengths : List UInt32}
      (hlead : Blanks lead) (hname : Names declared name base) (htrail : Blanks trail)
      (hsuffixes : List.Forall₂ Suffix.Denotes suffixes lengths)
      (hempty : name = [] → suffixes = []) :
      Denotes declared (lead ++ (name ++ (trail ++ suffixes.flatMap Suffix.text)))
        (lengths.foldl .array base)

/-! ## Names -/

/-- No built-in spelling has blanks around it, or ends like an array. -/
theorem spellings_plain : spellings.all (fun s =>
    decide (Trimmed s.1.toList ∧ s.1.toList.getLast? ≠ some ']')) = true := by
  decide

/-- The names of built-in types have no blanks around them and do not end like an array. -/
theorem plain_of_spelling {name : List Char} {t : Ty}
    (h : spellings.lookup (.ofList name) = some t) :
    Trimmed name ∧ name.getLast? ≠ some ']' := by
  have hplain := List.all_eq_true.mp spellings_plain _ (mem_of_lookup h)
  rw [String.toList_ofList, decide_eq_true_eq] at hplain
  exact hplain

/-- A name has no blanks around it. -/
theorem Names.trimmed {declared : Declared} {name : List Char} {t : Ty}
    (h : Names declared name t) : Trimmed name := by
  cases h with
  | builtin h => exact (plain_of_spelling h).1
  | declared _ htrimmed _ _ => exact htrimmed

/-- A name does not end like an array. -/
theorem Names.getLast?_ne {declared : Declared} {name : List Char} {t : Ty}
    (h : Names declared name t) : name.getLast? ≠ some ']' := by
  cases h with
  | builtin h => exact (plain_of_spelling h).2
  | declared _ _ hlast _ => exact hlast

/-- A text that is no array is read as a name. -/
theorem namedType_eq_ok_iff {declared : Declared} {name : List Char} {t : Ty}
    (htrimmed : Trimmed name) (hlast : name.getLast? ≠ some ']') :
    namedType declared name = .ok t ↔ Names declared name t := by
  unfold namedType
  constructor
  · intro h
    cases hbuiltin : spellings.lookup (.ofList name) with
    | some u =>
      rw [hbuiltin] at h
      cases h
      exact .builtin hbuiltin
    | none =>
      cases hdeclared : declared.lookup (.ofList name) with
      | some u =>
        rw [hbuiltin, hdeclared] at h
        cases h
        exact .declared hbuiltin htrimmed hlast hdeclared
      | none =>
        rw [hbuiltin, hdeclared] at h
        cases h
  · intro h
    cases h with
    | builtin h =>
      rw [h]
      rfl
    | declared hother _ _ h =>
      rw [hother, h]
      rfl

/-! ## Lengths -/

/-- The text between brackets is read as a length if it is blank, or a numeral between blanks. -/
theorem arrayLength_eq_ok_iff {inner : List Char} {n : UInt32} :
    arrayLength inner = .ok n ↔
      Text.trim inner = [] ∧ n = 0 ∨ Numeral (Text.trim inner) n.toNat := by
  unfold arrayLength
  cases hinner : Text.trim inner with
  | nil =>
    constructor
    · rintro ⟨⟩
      exact .inl ⟨rfl, rfl⟩
    · rintro (⟨-, rfl⟩ | h)
      · rfl
      · exact absurd rfl h.ne_nil
  | cons c rest =>
    simp only [List.isEmpty_cons, Bool.false_eq_true, if_false, reduceCtorEq, false_and, false_or]
    rw [except_mapError_eq_ok_iff, Text.readUInt32_eq_ok_iff]

theorem Suffix.Denotes.trimmed {s : Suffix} {n : UInt32} (h : s.Denotes n) : Trimmed s.digits := by
  rcases h.length with ⟨hnil, -⟩ | hnumeral
  · rw [hnil]
    exact ⟨by simp, by simp⟩
  · constructor
    · intro c hc
      exact hnumeral.isWord.solid c (List.mem_of_mem_head? hc)
    · intro c hc
      exact hnumeral.isWord.solid c (List.mem_of_getLast? hc)

/-- A length is read with the blanks around it. -/
theorem Suffix.Denotes.arrayLength_eq {s : Suffix} {n : UInt32} (h : s.Denotes n) :
    arrayLength (s.before ++ (s.digits ++ s.after)) = .ok n := by
  rw [arrayLength_eq_ok_iff, Text.trim_append h.before h.trimmed h.after]
  exact h.length

/-- Every text that is read as a length can stand in a suffix. -/
theorem exists_suffix {inner behind : List Char} {n : UInt32} (h : arrayLength inner = .ok n)
    (hbehind : Blanks behind) :
    ∃ s : Suffix, s.Denotes n ∧ s.text = '[' :: inner ++ ']' :: behind := by
  obtain ⟨before, after, hbefore, hafter, hinner, -⟩ := Text.exists_blanks_trim inner
  refine ⟨⟨before, Text.trim inner, after, behind⟩, ⟨hbefore, hafter, hbehind, ?_⟩, ?_⟩
  · exact arrayLength_eq_ok_iff.mp h
  · rw [Suffix.text, ← hinner]

theorem numeral_not_mem {digits : List Char} {n : Nat} (h : Numeral digits n) : '[' ∉ digits := by
  intro hmem
  have hdigit := h.digits '[' hmem
  revert hdigit
  decide

theorem blanks_not_mem {cs : List Char} (h : Blanks cs) : '[' ∉ cs := by
  intro hmem
  have hblank := h '[' hmem
  revert hblank
  decide

/-- No bracket opens inside a suffix. -/
theorem Suffix.Denotes.not_mem {s : Suffix} {n : UInt32} (h : s.Denotes n) :
    '[' ∉ s.before ++ (s.digits ++ s.after) := by
  have hdigits : '[' ∉ s.digits := by
    rcases h.length with ⟨hnil, -⟩ | hnumeral
    · rw [hnil]
      exact List.not_mem_nil
    · exact numeral_not_mem hnumeral
  simp only [List.mem_append, not_or]
  exact ⟨blanks_not_mem h.before, hdigits, blanks_not_mem h.after⟩

/-! ## Splitting -/

/-- An array is split at the last bracket that opens. -/
theorem splitArray_append {elem inner : List Char} (helem : elem ≠ []) (hinner : '[' ∉ inner) :
    splitArray (elem ++ ('[' :: inner ++ [']'])) = some (elem, inner) := by
  have hdrop : (elem ++ ('[' :: inner ++ [']'])).dropLast.reverse =
      inner.reverse ++ '[' :: elem.reverse := by
    rw [← List.append_assoc, List.dropLast_concat]
    simp
  have hall : ∀ c ∈ inner.reverse, decide (c ≠ '[') = true := by
    intro c hc
    rw [decide_eq_true_eq]
    rintro rfl
    exact hinner (List.mem_reverse.mp hc)
  obtain ⟨c, before, helem'⟩ : ∃ c before, elem.reverse = c :: before :=
    List.exists_cons_of_ne_nil (by simpa using helem)
  have hback : (c :: before).reverse = elem := by
    rw [← helem', List.reverse_reverse]
  unfold splitArray
  rw [hdrop, List.takeWhile_append_of_pos hall, List.dropWhile_append_of_pos hall, helem']
  simp [hback]

/-- What a split gives is all of the text. -/
theorem eq_append_of_splitArray {text elem inner : List Char} (hlast : text.getLast? = some ']')
    (h : splitArray text = some (elem, inner)) :
    elem ≠ [] ∧ text = elem ++ ('[' :: inner ++ [']']) := by
  obtain ⟨front, hfront⟩ := List.getLast?_eq_some_iff.mp hlast
  unfold splitArray at h
  rw [hfront, List.dropLast_concat] at h
  split at h
  · next bracket c before hrest =>
    cases h
    have hparts := @List.takeWhile_append_dropWhile _ (· ≠ '[') front.reverse
    have hopen : bracket = '[' := by
      have hhead := List.head?_dropWhile_not (· ≠ '[') front.reverse
      rw [hrest] at hhead
      simpa using hhead
    rw [hrest, hopen] at hparts
    have hfront' := congrArg List.reverse hparts
    rw [List.reverse_append, List.reverse_reverse] at hfront'
    constructor
    · simp
    · rw [hfront]
      conv_lhs => rw [← hfront']
      simp
  · cases h

/-! ## Reading -/

/-- Blanks around a type do not matter. -/
theorem parseType_congr {declared : Declared} {a b : List Char} (h : Text.trim a = Text.trim b) :
    parseType declared a = parseType declared b := by
  rw [parseType.eq_def declared a, parseType.eq_def declared b, h]

/-- A text between blanks is read like the text alone. -/
theorem parseType_between {declared : Declared} {lead cs trail : List Char} (hlead : Blanks lead)
    (h : Trimmed cs) (htrail : Blanks trail) :
    parseType declared (lead ++ (cs ++ trail)) = parseType declared cs := by
  apply parseType_congr
  rw [Text.trim_append hlead h htrail, Text.trim_of_trimmed h]

/-- A name is read as what it names. -/
theorem parseType_of_names {declared : Declared} {name : List Char} {t : Ty}
    (h : Names declared name t) : parseType declared name = .ok t := by
  rw [parseType, Text.trim_of_trimmed h.trimmed, if_neg h.getLast?_ne]
  exact (namedType_eq_ok_iff h.trimmed h.getLast?_ne).mpr h

/-- A text that ends in brackets is read as an array. -/
theorem parseType_brackets {declared : Declared} {elem inner : List Char}
    (helem : elem ≠ []) (hinner : '[' ∉ inner) (h : Trimmed (elem ++ ('[' :: inner ++ [']']))) :
    parseType declared (elem ++ ('[' :: inner ++ [']'])) =
      match parseType declared elem with
      | .error e => .error e
      | .ok t => (arrayLength inner).map (.array t) := by
  have hlast : (elem ++ ('[' :: inner ++ [']'])).getLast? = some ']' := by
    rw [← List.append_assoc, List.getLast?_concat]
  rw [parseType, Text.trim_of_trimmed h, if_pos hlast]
  split
  · next hnone =>
    rw [splitArray_append helem hinner] at hnone
    cases hnone
  · next elem' inner' hsome =>
    rw [splitArray_append helem hinner] at hsome
    cases hsome
    rfl

/-- A suffix makes an array of the type before it. -/
theorem parseType_suffix {declared : Declared} {text : List Char} {t : Ty} {s : Suffix} {n : UInt32}
    (h : parseType declared text = .ok t) (hs : s.Denotes n) (hblank : Text.trim text ≠ []) :
    parseType declared (text ++ s.text) = .ok (.array t n) := by
  obtain ⟨lead, trail, hlead, htrail, htext, htrimmed⟩ := Text.exists_blanks_trim text
  -- The blanks between the element and the bracket belong to the element.
  have helem : parseType declared (Text.trim text ++ trail) = .ok t := by
    rw [← h]
    apply parseType_congr
    have hone := Text.trim_append Text.blanks_nil htrimmed htrail
    rwa [List.nil_append] at hone
  have hne : Text.trim text ++ trail ≠ [] := by
    intro hnil
    exact hblank (List.append_eq_nil_iff.mp hnil).1
  have harray : Trimmed (Text.trim text ++ trail ++
      ('[' :: (s.before ++ (s.digits ++ s.after)) ++ [']'])) := by
    constructor
    · obtain ⟨c, rest, hc⟩ := List.exists_cons_of_ne_nil hblank
      have hhead := htrimmed.head
      rw [hc] at hhead ⊢
      exact hhead
    · rw [← List.append_assoc, List.getLast?_concat]
      rintro c ⟨⟩
      decide
  have hsplit : text ++ s.text = lead ++ (Text.trim text ++ trail ++
      ('[' :: (s.before ++ (s.digits ++ s.after)) ++ [']']) ++ s.behind) := by
    nth_rewrite 1 [htext]
    simp [Suffix.text]
  rw [hsplit, parseType_between hlead harray hs.behind, parseType_brackets hne hs.not_mem harray,
    helem, hs.arrayLength_eq]
  rfl

/-- A text that has a name in it is not blank. -/
theorem trim_ne_nil {lead name rest : List Char} (h : Trimmed name)
    (hname : name ≠ []) : Text.trim (lead ++ (name ++ rest)) ≠ [] := by
  intro hnil
  obtain ⟨before, after, hbefore, hafter, htext, -⟩ :=
    Text.exists_blanks_trim (lead ++ (name ++ rest))
  rw [hnil, List.nil_append] at htext
  obtain ⟨c, name', rfl⟩ := List.exists_cons_of_ne_nil hname
  have hmem : c ∈ before ++ after := by
    rw [← htext]
    simp
  have hblank := hbefore.append hafter c hmem
  rw [h.head c rfl] at hblank
  cases hblank

/-- From the first suffix on, each one makes an array of what stands before it. -/
theorem parseType_suffixes {declared : Declared} {suffixes : List Suffix} {lengths : List UInt32}
    (h : List.Forall₂ Suffix.Denotes suffixes lengths) {before : List Char} {t : Ty}
    (hbefore : parseType declared before = .ok t)
    (hblank : suffixes = [] ∨ Text.trim before ≠ []) :
    parseType declared (before ++ suffixes.flatMap Suffix.text) =
      .ok (lengths.foldl .array t) := by
  induction h generalizing before t with
  | nil => rwa [List.flatMap_nil, List.append_nil]
  | @cons s n suffixes lengths hs _ ih =>
    have hne : Text.trim before ≠ [] := by
      rcases hblank with hnil | hne
      · cases hnil
      · exact hne
    rw [List.flatMap_cons, ← List.append_assoc]
    refine ih (parseType_suffix hbefore hs hne) (.inr ?_)
    obtain ⟨lead, trail, -, -, hsplit, htrimmed⟩ := Text.exists_blanks_trim before
    rw [hsplit, List.append_assoc, List.append_assoc]
    exact trim_ne_nil htrimmed hne

/-- What the grammar has is read as the grammar says. -/
theorem Denotes.parseType_eq {declared : Declared} {text : List Char} {t : Ty}
    (h : Denotes declared text t) : parseType declared text = .ok t := by
  obtain @⟨lead, name, trail, suffixes, base, lengths, hlead, hname, htrail, hsuffixes, hempty⟩ := h
  have hbase : parseType declared (lead ++ (name ++ trail)) = .ok base := by
    rw [parseType_between hlead hname.trimmed htrail]
    exact parseType_of_names hname
  have hstart : suffixes = [] ∨ Text.trim (lead ++ (name ++ trail)) ≠ [] := by
    by_cases hnil : name = []
    · exact .inl (hempty hnil)
    · exact .inr (trim_ne_nil hname.trimmed hnil)
  have hall := parseType_suffixes hsuffixes hbase hstart
  rwa [List.append_assoc, List.append_assoc] at hall

/-- One more suffix, unless the text before it is blank. -/
theorem Denotes.suffix {declared : Declared} {text : List Char} {t : Ty} {s : Suffix} {n : UInt32}
    (h : Denotes declared text t) (hs : s.Denotes n) (hblank : ¬ Blanks text) :
    Denotes declared (text ++ s.text) (.array t n) := by
  obtain @⟨lead, name, trail, suffixes, base, lengths, hlead, hname, htrail, hsuffixes, hempty⟩ := h
  have hname' : name ≠ [] := by
    rintro rfl
    rw [hempty rfl, List.flatMap_nil, List.append_nil, List.nil_append] at hblank
    exact hblank (hlead.append htrail)
  have hmore : List.Forall₂ Suffix.Denotes (suffixes ++ [s]) (lengths ++ [n]) :=
    List.rel_append hsuffixes (.cons hs .nil)
  have hall := Denotes.intro hlead hname htrail hmore (fun hnil => absurd hnil hname')
  simpa [List.flatMap_append, List.foldl_append] using hall

/-- Blanks may stand in front. -/
theorem Denotes.lead {declared : Declared} {text lead : List Char} {t : Ty} (hlead : Blanks lead)
    (h : Denotes declared text t) : Denotes declared (lead ++ text) t := by
  obtain ⟨hlead', hname, htrail, hsuffixes, hempty⟩ := h
  rw [← List.append_assoc]
  exact .intro (hlead.append hlead') hname htrail hsuffixes hempty

/-- What the reader can do: take the text for a name, or take one pair of brackets off its end. -/
theorem parseType_cases {declared : Declared} {text : List Char} {t : Ty}
    (h : parseType declared text = .ok t) :
    Names declared (Text.trim text) t ∨
      ∃ elem inner u n, elem ≠ [] ∧ Text.trim text = elem ++ ('[' :: inner ++ [']']) ∧
        parseType declared elem = .ok u ∧ arrayLength inner = .ok n ∧ t = .array u n := by
  obtain ⟨-, -, -, -, -, htrimmed⟩ := Text.exists_blanks_trim text
  rw [parseType] at h
  split at h
  · next hlast =>
    split at h
    · cases h
    · next elem inner hsplit =>
      obtain ⟨helem, hbrackets⟩ := eq_append_of_splitArray hlast hsplit
      cases hu : parseType declared elem with
      | error e =>
        rw [hu] at h
        cases h
      | ok u =>
        rw [hu] at h
        obtain ⟨n, hn, rfl⟩ := except_map_eq_ok_iff.mp h
        exact .inr ⟨elem, inner, u, n, helem, hbrackets, hu, hn, rfl⟩
  · next hlast => exact .inl ((namedType_eq_ok_iff htrimmed hlast).mp h)

/-- What is read is in the grammar. By induction on the length of the text, since the element before
the last brackets is shorter. -/
theorem denotes_of_parseType {declared : Declared} (text : List Char) {t : Ty}
    (h : parseType declared text = .ok t) : Denotes declared text t := by
  obtain ⟨lead, trail, hlead, htrail, htext, htrimmed⟩ := Text.exists_blanks_trim text
  rcases parseType_cases h with hname | ⟨elem, inner, u, n, helem, hbrackets, hu, hn, rfl⟩
  · have hall : Denotes declared _ _ := Denotes.intro hlead hname htrail .nil (fun _ => rfl)
    rw [htext]
    simpa using hall
  · obtain ⟨s, hs, hstext⟩ := exists_suffix hn htrail
    -- The first character of the element is the first of the trimmed text.
    have hblank : ¬ Blanks elem := by
      intro hblank
      obtain ⟨c, rest, rfl⟩ := List.exists_cons_of_ne_nil helem
      have hc := htrimmed.head c (by rw [hbrackets]; rfl)
      rw [hblank c List.mem_cons_self] at hc
      cases hc
    have hshorter : elem.length < text.length := by
      have hle := Text.length_trim_le text
      rw [hbrackets, List.length_append, List.length_append, List.length_cons] at hle
      omega
    have hall := ((denotes_of_parseType elem hu).suffix hs hblank).lead hlead
    rw [hstext] at hall
    rw [htext, hbrackets]
    simpa using hall
termination_by text.length

/-- A text is read exactly if the grammar has it, and as the type that the grammar gives it. -/
theorem parseType_eq_ok_iff {declared : Declared} {text : List Char} {t : Ty} :
    parseType declared text = .ok t ↔ Denotes declared text t := by
  constructor
  · exact denotes_of_parseType text
  · intro h
    exact h.parseType_eq

/-! ## Writing -/

/-- The text of a type: a name, and the lengths of the arrays around it, the innermost first. A
length that is not known is left open. -/
def writeType (name : List Char) (lengths : List UInt32) : List Char :=
  name ++ lengths.flatMap fun n =>
    '[' :: (if n = 0 then [] else Nat.toDigits 10 n.toNat) ++ [']']

/-- The suffix that a length is written as. -/
def Suffix.ofLength (n : UInt32) : Suffix :=
  ⟨[], if n = 0 then [] else Nat.toDigits 10 n.toNat, [], []⟩

/-- A length that is written is denoted. -/
theorem Suffix.denotes_ofLength (n : UInt32) : (ofLength n).Denotes n := by
  refine ⟨Text.blanks_nil, Text.blanks_nil, Text.blanks_nil, ?_⟩
  by_cases hn : n = 0
  · exact .inl ⟨if_pos hn, hn⟩
  · right
    rw [ofLength, if_neg hn]
    exact Text.numeral_toDigits n.toNat

/-- The written form of an array type is in the grammar. -/
theorem denotes_writeType {declared : Declared} {name : List Char} {base : Ty}
    (h : Names declared name base) (hne : name ≠ []) (lengths : List UInt32) :
    Denotes declared (writeType name lengths) (lengths.foldl .array base) := by
  have hsuffixes : List.Forall₂ Suffix.Denotes (lengths.map Suffix.ofLength) lengths := by
    induction lengths with
    | nil => exact .nil
    | cons n lengths ih => exact .cons (Suffix.denotes_ofLength n) ih
  have hall := Denotes.intro Text.blanks_nil h Text.blanks_nil hsuffixes
    (fun hnil => absurd hnil hne)
  have htext : (lengths.map Suffix.ofLength).flatMap Suffix.text = lengths.flatMap fun n =>
      '[' :: (if n = 0 then [] else Nat.toDigits 10 n.toNat) ++ [']'] := by
    rw [List.flatMap_map]
    simp [Suffix.text, Suffix.ofLength]
  rw [htext] at hall
  exact hall

/-- A text is read as a type exactly if the grammar has it, with the type that the grammar gives it,
whatever is declared. So arrays of any depth and lengths, over a built-in type or a declared one
under its name, are read back from their written form. -/
theorem parseType_agrees (declared : Declared) :
    (∀ text t, parseType declared text = .ok t ↔ Denotes declared text t) ∧
      ∀ name base, Names declared name base → name ≠ [] →
        ∀ lengths : List UInt32,
          parseType declared (writeType name lengths) = .ok (lengths.foldl .array base) := by
  constructor
  · intro text t
    exact parseType_eq_ok_iff
  · intro name base hname hne lengths
    exact (denotes_writeType hname hne lengths).parseType_eq

/-- Arrays over a declared structure, the outer length left open, written and with blanks around the
parts. -/
theorem parseType_agrees_nested :
    let light : Ty := .struct "light" (.cons "colour" .vec3 .nil)
    let declared : Declared := [("light", light)]
    Names declared "light".toList light ∧
      writeType "light".toList [3, 0] = "light[3][]".toList ∧
      parseType declared "light[3][]".toList = .ok (.array (.array light 3) 0) ∧
      parseType declared " light\t[ 3]\n[ ] ".toList = .ok (.array (.array light 3) 0) := by
  intro light declared
  have hname : Names declared "light".toList light :=
    .declared (by decide) (by decide) (by decide) (by decide)
  have hlengths : List.Forall₂ Suffix.Denotes [⟨[' '], ['3'], [], ['\n']⟩, ⟨[' '], [], [], [' ']⟩]
      [3, 0] := by
    have hthree : Numeral ['3'] 3 := Text.numeral_toDigits 3
    exact .cons ⟨by decide, by decide, by decide, .inr hthree⟩
      (.cons ⟨by decide, by decide, by decide, .inl ⟨rfl, rfl⟩⟩ .nil)
  have hblanks := Denotes.intro (show Blanks [' '] by decide) hname (show Blanks ['\t'] by decide)
    hlengths (by decide)
  exact ⟨hname, by decide, (parseType_agrees declared).2 _ _ hname (by decide) [3, 0],
    ((parseType_agrees declared).1 _ _).mpr hblanks⟩

end ShaderStage.Description
