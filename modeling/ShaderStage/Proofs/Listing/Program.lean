import ShaderStage.Proofs.DebugNames
import ShaderStage.Proofs.Listing.Lines

/-! # Listings are faithful

The lines of a listing say all about the instructions of a compiled module: whatever is emitted has
the operands that its form asks for, and nothing that is hidden matters. The strings among the
operands are names that the program declares, possibly with a suffix, and texts that the options
give; they have no zero bytes if those have none.

* `Emitter.Turn.shown`: what is emitted in a turn is shown;
* `text_eq_iff_of_compile`: compiled modules can be told apart by their listings. -/

namespace ShaderStage

/-! ## Instructions that are shown -/

/-- The remaining operands are all shown. -/
def Remainder.isAll : Remainder → Bool
  | .all _ => true
  | _ => false

namespace Instruction.Shown

section

variable {op : Opcode} {operands : List Word} (n : Nat)

/-- An instruction that hides nothing. -/
theorem of_form (hop : op.form.need ≤ n ∧ op.hidden = []) (hn : n ≤ operands.length)
    (hremainder : op.form.remainder.Shows operands op.form.start) : Shown ⟨op, operands⟩ where
  need := Nat.le_trans hop.1 hn
  hidden := by
    show ∀ k ∈ op.hidden, _
    rw [hop.2]
    nofun
  remainder := hremainder

/-- An instruction whose operands are all shown, however many there are. -/
theorem all
    (hop : (op.form.need ≤ n ∧ op.hidden = []) ∧ op.form.remainder.isAll = true)
    (hn : n ≤ operands.length) : Shown ⟨op, operands⟩ := by
  obtain ⟨hform, hall⟩ := hop
  refine of_form n hform hn ?_
  cases hremainder : op.form.remainder with
  | all style => trivial
  | _ =>
    rw [hremainder] at hall
    cases hall

/-- An instruction that has no operands beyond those that are shown one by one. -/
theorem omitted
    (hop : (op.form.need ≤ n ∧ op.hidden = []) ∧ op.form.start = n ∧
      op.form.remainder = .omitted) (hn : operands.length = n) : Shown ⟨op, operands⟩ := by
  obtain ⟨hform, hstart, hremainder⟩ := hop
  refine of_form n hform (Nat.le_of_eq hn.symm) ?_
  rw [hremainder, hstart]
  exact List.drop_eq_nil_of_le (Nat.le_of_eq hn)

/-- Operands in front of a text without zero bytes. -/
theorem string (front : List Word) {text : String}
    (hop : (op.form.need ≤ n ∧ op.hidden = []) ∧ op.form.start = n ∧ op.form.remainder = .string)
    (hn : front.length = n) (htext : NulFree text) :
    Shown ⟨op, front ++ Literal.ofString text⟩ := by
  obtain ⟨hform, hstart, hremainder⟩ := hop
  refine of_form n hform ?_ ?_
  · rw [List.length_append]
    omega
  · rw [hremainder, hstart]
    exact ⟨text, htext, List.drop_left' hn⟩

end

/-- An entry point shows its name and its interface. -/
theorem entryPoint (model : ExecutionModel) (f : Id) {text : String} (htext : NulFree text)
    (ids : List Id) : Shown ⟨.entryPoint, model :: f :: Literal.ofString text ++ ids⟩ :=
  of_form 2 (by decide) (Nat.le_add_left 2 _) ⟨text, ids, htext, rfl⟩

/-- No decoration has more than one parameter. -/
theorem decorate (id : Id) (d : Decoration) {ws : List Word} (hws : ws.length ≤ 1) :
    Shown ⟨.decorate, id :: d :: ws⟩ :=
  of_form 2 (by decide) (Nat.le_add_left 2 _) fun _ => hws

/-- The control of a function is hidden, but it is always zero. -/
theorem function (R id F : Id) : Shown ⟨.function, [R, id, 0, F]⟩ where
  need := Nat.le_refl 4
  hidden := by
    rw [show Opcode.hidden .function = [2] by decide]
    exact List.forall_mem_singleton.mpr rfl
  remainder := rfl

end Instruction.Shown

/-- What computes a value is shown. -/
theorem Opcode.Computes.shown {op : Opcode} {operands : List Word} (h : op.Computes operands)
    (T id : Id) : Instruction.Shown ⟨op, T :: id :: operands⟩ := by
  have harithmetic : ∀ op ∈ Opcode.arithmetic,
      (op.form.need ≤ 4 ∧ op.hidden = []) ∧ op.form.remainder.isAll = true := by decide
  cases h with
  | load => exact .all 3 (by decide) (Nat.le_refl 3)
  | extract => exact .all 3 (by decide) (Nat.le_add_left 3 _)
  | access => exact .all 4 (by decide) (Nat.le_refl 4)
  | construct => exact .all 2 (by decide) (Nat.le_add_left 2 _)
  | arithmetic hop => exact .all 4 (harithmetic op hop) (Nat.le_refl 4)

/-- What is done for its effect is shown. -/
theorem Opcode.Performs.shown {op : Opcode} {operands : List Word} (h : op.Performs operands) :
    Instruction.Shown ⟨op, operands⟩ := by
  cases h with
  | store => exact .all 2 (by decide) (Nat.le_refl 2)
  | ret => exact .all 0 (by decide) (Nat.le_refl 0)
  | returnValue => exact .all 1 (by decide) (Nat.le_refl 1)
  | functionEnd => exact .all 0 (by decide) (Nat.le_refl 0)

/-! ## Turns -/

/-- All that was emitted is shown. -/
def Emitter.Shown (s : Emitter) : Prop :=
  ∀ part i, s.Has part i → i.Shown

namespace Emitter

variable {s s' : Emitter} {k : Key} {id : Id} {pub : List (Section × Instruction)}

theorem shown_start (v : Version) : (start v).Shown := nofun

namespace Shown

theorem of_draft (hs : s.Shown) (hdraft : s'.draft = s.draft) : s'.Shown := by
  intro part i hi
  rw [Has, hdraft] at hi
  exact hs part i hi

/-- An instruction that is shown can be added. -/
theorem put (hs : s.Shown) (part : Section) {i : Instruction} (hi : i.Shown) :
    (s.put part i).Shown := by
  intro part' j hj
  rcases has_put.mp hj with hold | ⟨-, rfl⟩
  · exact hs part' j hold
  · exact hi

/-- An instruction that is shown can be defined. -/
theorem define (hs : s.Shown) (part : Section) {i : Instruction} (hi : i.Shown) :
    (s.define part i).Shown := by
  intro part' j hj
  rcases has_define.mp hj with hold | ⟨-, rfl⟩
  · exact hs part' j hold
  · exact hi

/-- A name without zero bytes is shown. -/
theorem label (hs : s.Shown) (id : Id) {text : String} (htext : NulFree text) :
    (s.label id text).Shown :=
  hs.put .names (.string 1 [id] (by decide) rfl htext)

theorem title (hs : s.Shown) (id : Id) {text : String} (htext : NulFree text) :
    (s.title id text).Shown := by
  unfold Emitter.title
  split
  · exact hs
  · exact hs.label id htext

theorem declare (hs : s.Shown) (c : Capability) : (s.declare c).Shown := by
  unfold Emitter.declare
  split
  · exact hs
  · exact hs.put .capabilities (.omitted 1 (by decide) rfl)

theorem prepare (hs : s.Shown) (k : Key) : (s.prepare k).Shown := by
  unfold Emitter.prepare
  split
  · exact hs.declare _
  · exact hs

/-- A structure type is shown with the names of its members, none of which has zero bytes. -/
theorem structured (hs : s.Shown) {name : String} {members : Members}
    (hnames : (Ty.struct name members).Named NulFree) (ids : List Id) :
    (s.structured name members ids).Shown := by
  have htype : Instruction.Shown ⟨.typeStruct, s.nextId :: ids⟩ :=
    .all 1 (by decide) (Nat.le_add_left 1 _)
  refine layOut_induct (P := Emitter.Shown) (fun s index offset hs => ?_)
    (fun s index m hm hs => ?_) ((hs.define .globals htype).title s.nextId hnames.1) 0 0
  · exact hs.put .memberDecorations (.all 3 (by decide) (Nat.le_add_left 3 _))
  · exact hs.put .names (.string 2 [_, index] (by decide) rfl (hnames.2.mem m hm).1)

/-- The name of the instruction set has no zero bytes. -/
theorem importMath (hs : s.Shown) : s.importMath.Shown := by
  unfold Emitter.importMath
  split
  · exact hs
  · exact hs.define .instructionSets (.string 1 [s.nextId] (by decide) rfl (by decide))

end Shown

/-- The types that are one instruction are shown. -/
theorem Outline.shown {op : Opcode} {operands : List Word} (h : s.Outline k op operands) (id : Id) :
    Instruction.Shown ⟨op, id :: operands⟩ := by
  cases h with
  | void | bool => exact .all 1 (by decide) (Nat.le_refl 1)
  | int | vector | array => exact .all 3 (by decide) (Nat.le_refl 3)
  | float => exact .all 2 (by decide) (Nat.le_refl 2)
  | pointer => exact .omitted 3 (by decide) rfl

/-- A new type is shown. -/
theorem Enters.shown (h : s.Enters k id s') (hk : k.type.Named NulFree) (hs : s.Shown) :
    s'.Shown := by
  cases h with
  | simple h => exact (hs.prepare _).define .globals (h.shown _)
  | matrix4 =>
    refine (hs.define .globals ?_).put .decorations (.decorate _ _ (Nat.zero_le 1))
    exact .all 3 (by decide) (Nat.le_refl 3)
  | sampledImage2D hc hs₁ =>
    rw [hs₁]
    refine (hs.define .globals ?_).define .globals (.all 2 (by decide) (Nat.le_refl 2))
    exact .all 8 (by decide) (Nat.le_refl 8)
  | struct => exact hs.structured hk _

/-- What is announced is shown. -/
theorem Announces.shown {part : Section} {i : Instruction}
    (h : s.Announces (.nulFree NulFree) part i) : i.Shown := by
  cases h with
  | extension htext => exact .string 0 [] (by decide) rfl htext
  | memoryModel => exact .omitted 2 (by decide) rfl
  | source => exact .all 2 (by decide) (Nat.le_add_left 2 _)
  | sourceExtension htext => exact .string 0 [] (by decide) rfl htext
  | entryPoint => exact .entryPoint _ _ (by decide) _
  | executionMode => exact .all 2 (by decide) (Nat.le_add_left 2 _)

/-- What is noted is shown. -/
theorem Notes.shown (h : s.Notes (.nulFree NulFree) pub s') (hs : s.Shown) : s'.Shown := by
  cases h with
  | abandoned hkey => exact hs.structured hkey _
  | performed h => exact hs.put .functions h.shown
  | function htext => exact (hs.define .functions (.function _ _ _)).label _ htext
  | label => exact hs.define .functions (.all 1 (by decide) (Nat.le_refl 1))
  | capability c => exact hs.declare c
  | decoration => exact hs.put .decorations (.decorate _ _ (Nat.le_refl 1))
  | string htext => exact hs.define .sources (.string 1 [s.nextId] (by decide) rfl htext)
  | announced h => exact hs.put _ h.shown

/-- What is emitted in a turn is shown, if no name or text has a zero byte. -/
theorem Turn.shown (h : Turn (.nulFree NulFree) s pub s') (hs : s.Shown) : s'.Shown := by
  cases h with
  | type hkey hunknown h => exact h.shown hkey hs
  | constant =>
    refine .of_draft ?_ (s.draft_newConstant _ _ _)
    refine (hs.define .globals ?_).label _ (Pool.nulFree_text _ _)
    exact .all 3 (by decide) (Nat.le_refl 3)
  | functionType => exact hs.define .globals (.all 2 (by decide) (Nat.le_refl 2))
  | value hop hkey htext hT hs₁ =>
    refine Shown.title ?_ _ htext
    rcases hs₁ with rfl | rfl
    · exact hs.define .functions (hop.shown _ _)
    · exact hs.define .functions (hop.shown _ _)
  | math => exact hs.importMath.define .functions (.all 5 (by decide) (Nat.le_refl 5))
  | localVariable hkey htext =>
    refine (hs.define .functions ?_).label _ htext
    exact .all 3 (by decide) (Nat.le_refl 3)
  | globalVariable hkey htext =>
    refine (hs.define .globals ?_).label _ htext
    exact .all 3 (by decide) (Nat.le_refl 3)
  | block => exact hs.put .decorations (.decorate _ _ (Nat.zero_le 1))
  | note h => exact h.shown hs
  | rename hforeign => exact hforeign.elim

end Emitter

/-! ## Programs -/

/-- Every text that the options give has a property. -/
structure Options.EachText (ok : String → Prop) (o : Options) : Prop where
  extensions : ∀ text ∈ o.extensions, ok text
  sourceFile : ok o.sourceFile

/-- Options without zero bytes stay within the texts that are shown. -/
theorem Options.EachText.within {o : Options} (h : o.EachText NulFree) :
    o.Within (.nulFree NulFree) where
  extensions := h.extensions
  sourceFile := h.sourceFile
  sourceExtensions := show ∀ text ∈ ShaderStage.sourceExtensions, NulFree text by decide

/-- What compilation emits is shown by the lines of the listing. -/
theorem shown_of_emitModule {p : Program} {o : Options} {c : Compilation}
    (hp : p.EachName NulFree) (ho : o.EachText NulFree)
    (h : p.emitModule o { emitter := .start o.moduleVersion } = .ok () c) :
    ∀ i ∈ c.emitter.draft.instructions, i.Shown := by
  intro i hi
  have hleads := Program.leads_of_emitModule (hp.within ho.within)
  rw [h] at hleads
  obtain ⟨pub, hturns⟩ := hleads
  obtain ⟨part, hlog⟩ := Draft.mem_instructions hi
  have hshown : c.emitter.Shown :=
    hturns.induct (Emitter.shown_start _) fun _ _ _ _ hs hturn => hturn.shown hs
  exact hshown part i hlog

/-- Drafts that agree in what the listing shows are written with the same words. -/
theorem Draft.assemble_congr {d d' : Draft} {words words' : List Word}
    (h : d.assemble.1 = .ok words) (h' : d'.assemble.1 = .ok words')
    (hversion : d.version = d'.version) (hbound : d.ids.next = d'.ids.next)
    (hinstructions : d.instructions = d'.instructions) : words = words' := by
  obtain ⟨body, hbody, rfl⟩ := Draft.encodeAll_of_assemble h
  obtain ⟨body', hbody', rfl⟩ := Draft.encodeAll_of_assemble h'
  rw [hinstructions, hbody'] at hbody
  cases hbody
  rw [Draft.header, Draft.header, hversion, hbound]

/-- The listing is faithful. Two compiled modules have the same listing exactly if they are the same
words, whatever programs and options they come from, if no name or text among these has a zero
byte. -/
theorem text_eq_iff_of_compile {p p' : Program} {o o' : Options} {words words' : List Word}
    (hp : p.EachName NulFree) (hp' : p'.EachName NulFree)
    (ho : o.EachText NulFree) (ho' : o'.EachText NulFree)
    (h : (compile (some p) o).words = .ok words)
    (h' : (compile (some p') o').words = .ok words') :
    ∃ m m', Module.decode words = .ok m ∧ Module.decode words' = .ok m' ∧
      (m.text = m'.text ↔ words = words') := by
  obtain ⟨c, hrun, hwords, -⟩ := emitModule_of_compile h
  obtain ⟨c', hrun', hwords', -⟩ := emitModule_of_compile h'
  have hdecode := Draft.decode_assemble hwords
  have hdecode' := Draft.decode_assemble hwords'
  refine ⟨_, _, hdecode, hdecode', ?_⟩
  constructor
  · intro htext
    obtain ⟨hversion, hbound, hinstructions⟩ := Draft.eq_of_text
      (shown_of_emitModule hp ho hrun) (shown_of_emitModule hp' ho' hrun') htext
    exact Draft.assemble_congr hwords hwords' hversion hbound hinstructions
  · rintro rfl
    exact congrArg Module.text (Except.ok.inj (hdecode.symm.trans hdecode'))

/-- The name of a source file is one of the texts in a module, also if there is an end of a line in
it, so a listing tells whether and from which file the module was made. -/
theorem text_eq_iff_of_compile_tint : ∃ words words' m m',
    (compile (some .tint) {}).words = .ok words ∧
      (compile (some .tint) { sourceFile := "tint\n.frag" }).words = .ok words' ∧
      Module.decode words = .ok m ∧ Module.decode words' = .ok m' ∧ m.text ≠ m'.text := by
  have hnames : Program.tint.EachName NulFree :=
    ⟨by decide, by decide, by decide, named_tint_of_forall (by decide)⟩
  have hcompiled : ((compile (some .tint) {}).words.toOption.bind fun words =>
      (compile (some .tint) { sourceFile := "tint\n.frag" }).words.toOption.map fun words' =>
        decide (words = words')) = some false := by
    decide +kernel
  simp only [Option.bind_eq_some_iff, Option.map_eq_some_iff, decide_eq_false_iff_not] at hcompiled
  obtain ⟨words, hwords, words', hwords', hne⟩ := hcompiled
  have hwords := eq_ok_of_toOption hwords
  have hwords' := eq_ok_of_toOption hwords'
  obtain ⟨m, m', hm, hm', htext⟩ := text_eq_iff_of_compile hnames hnames
    ⟨by decide, by decide⟩ ⟨by decide, by decide⟩ hwords hwords'
  exact ⟨words, words', m, m', hwords, hwords', hm, hm', fun heq => hne (htext.mp heq)⟩

end ShaderStage
