import CartGraph.Proofs.Emit.Nesting
import CartGraph.Proofs.Emit.Visibility

/-! # The locals that lines declare

Which locals are in scope at a place of a function can be read off the lines before it: a line opens
a block, closes one, or declares locals. The walk keeps its table in step with the lines. Whatever
the table finds is declared in scope, and what is in scope was declared by the lines of loops,
declarations and resumed coroutines, or by the head of the function. -/
namespace CartGraph

namespace Lua

def Frames.Grows (frames frames' : Frames α) : Prop :=
  ∃ more, frames' = (more ++ frames.headD []) :: frames.tail

namespace Frames.Grows

variable {frames frames₁ frames₂ : Frames α}

theorem refl (h : frames ≠ []) : frames.Grows frames := by
  cases frames with
  | nil => exact absurd rfl h
  | cons frame rest => exact ⟨[], rfl⟩

theorem ne_nil (h : frames.Grows frames₁) : frames₁ ≠ [] := by
  obtain ⟨_, rfl⟩ := h
  exact List.cons_ne_nil _ _

theorem trans (h : frames.Grows frames₁) (h' : frames₁.Grows frames₂) : frames.Grows frames₂ := by
  obtain ⟨more, rfl⟩ := h
  obtain ⟨more', rfl⟩ := h'
  exact ⟨more' ++ more, by simp⟩

theorem subset (h : frames.Grows frames₁) : frames.flatten ⊆ frames₁.flatten := by
  obtain ⟨more, rfl⟩ := h
  cases frames with
  | nil => exact List.nil_subset _
  | cons frame rest =>
    change frame ++ rest.flatten ⊆ (more ++ frame) ++ rest.flatten
    rw [List.append_assoc]
    exact List.subset_append_right ..

end Frames.Grows

/-- A text that changes no scope, however far it is indented. -/
def IsPlain (text : String) : Prop := ∀ k, Form.ofLine (Settings.blanks k ++ text) = .plain

theorem isPlain_comment (text : String) : IsPlain ("-- " ++ text) := by
  intro k
  have := Form.ofLine_comment k (" " ++ text)
  rwa [← @String.append_assoc "--" " " text] at this

theorem isPlain_call {function : String} (h : IsName function) (hfree : function ∉ reserved)
    (arguments : List String) : IsPlain (call function arguments) := by
  intro k
  unfold call
  rw [@String.append_assoc function, @String.append_assoc function]
  exact Form.ofLine_name k h hfree (by simp [isNameChar])

end Lua

/-- What a visit does to the locals in scope. Only lines do anything, and what a line declares
belongs to its node. -/
def Visit.apply (v : Visit) (frames : Lua.Frames (Option Key)) : Lua.Frames (Option Key) :=
  match v with
  | .line node text => (Lua.Form.ofLine text).apply (some node.canonical) frames
  | _ => frames

-- stated for any text, since the form of one that is known would be computed
theorem Visit.foldr_line (node : Key) (text : String) (frames : Lua.Frames (Option Key)) :
    [Visit.line node text].foldr Visit.apply frames =
      (Lua.Form.ofLine text).apply (some node.canonical) frames := rfl

def Compilation.parameters (c : Compilation) (entry : Key) : List Parameter :=
  ((c.events.lookup entry.canonical).map Signature.parameters).getD []

/-- The locals that the head of a function declares. They belong to no node. -/
def Compilation.headFrame (c : Compilation) (entry : Key) : List (Option Key × String) :=
  ((c.parameters entry).map fun q => (none, q.luaName)).reverse

def Compilation.scopeAfter (c : Compilation) (entry : Key) (log : List Visit) :
    Lua.Frames (Option Key) :=
  log.foldl (fun frames v => v.apply frames) [c.headFrame entry]

/-- The same for a log that has the latest visit first. -/
def Compilation.frames (c : Compilation) (entry : Key) (log : List Visit) :
    Lua.Frames (Option Key) :=
  log.foldr Visit.apply [c.headFrame entry]

theorem Compilation.scopeAfter_reverse (c : Compilation) (entry : Key) (log : List Visit) :
    c.scopeAfter entry log.reverse = c.frames entry log := List.foldl_reverse

/-- Who declares the locals of a node: the head of the function for an event, otherwise a line of the
node. -/
def Graph.declarer (g : Graph) (n : Key) : Option Key :=
  if g.statement? n = some .openEvent then none else some n.canonical

/-- A local of a node that has the name that the user gave it. -/
inductive Compilation.Chooses (c : Compilation) (n : Key) (x : String) : Prop
  | index (hst : c.graph.statement? n = some .loop) (hx : c.nameProperty n "index" "i" = .ok x)
  | declare (hst : c.graph.statement? n = some .declare)
    (hx : c.nameProperty n "name" "localVar" = .ok x)

/-- A local that a line of a node declares. -/
inductive Compilation.Owns (c : Compilation) (issued : List (Output × String)) (n : Key)
    (x : String) : Prop
  | chosen (h : c.Chooses n x)
  | temporary {pin label : String} (hst : c.graph.statement? n = some .resume)
    (hlabel : (pin, label) ∈ resumeLabels) (hx : issued.lookup (outputOf n label) = some x)

/-- A local in scope that some line declares. -/
def Compilation.Lined (c : Compilation) (issued : List (Output × String))
    (d : Option Key × String) : Prop :=
  ∃ n : Key, d.1 = some n.canonical ∧ c.Owns issued n d.2

/-- Lines declare every local in scope, up to those of the head of the function. -/
inductive Grounded (c : Compilation) (entry : Key) (issued : List (Output × String)) :
    Lua.Frames (Option Key) → Prop
  | head {frame : List (Option Key × String)} (h : ∀ d ∈ frame, c.Lined issued d) :
    Grounded c entry issued [frame ++ c.headFrame entry]
  | block {frame : List (Option Key × String)} {frames : Lua.Frames (Option Key)}
    (h : ∀ d ∈ frame, c.Lined issued d) (hrest : Grounded c entry issued frames) :
    Grounded c entry issued (frame :: frames)

def Known (c : Compilation) (s : Progress) (frames : Lua.Frames (Option Key)) : Prop :=
  ∀ n p x, s.symbols.lookup n p = some x → (c.graph.declarer n, x) ∈ frames.flatten ∧
    (c.graph.statement? n ≠ some .openEvent → c.Owns s.symbols.issued n x)

section

variable {c : Compilation} {entry n m : Key} {x : String} {issued issued' : List (Output × String)}
  {frames frames' : Lua.Frames (Option Key)} {s s' : Progress}

theorem Graph.declarer_of_ne {g : Graph} (h : g.statement? n ≠ some .openEvent) :
    g.declarer n = some n.canonical := if_neg h

theorem Compilation.Chooses.congr (h : c.Chooses n x) (hk : n.canonical = m.canonical) :
    c.Chooses m x := by
  cases h with
  | index hst hx => exact .index (Graph.statement?_congr hk ▸ hst) (c.nameProperty_congr hk hx)
  | declare hst hx => exact .declare (Graph.statement?_congr hk ▸ hst) (c.nameProperty_congr hk hx)

theorem Compilation.Owns.congr (h : c.Owns issued n x) (hk : n.canonical = m.canonical) :
    c.Owns issued m x := by
  cases h with
  | chosen h => exact .chosen (h.congr hk)
  | temporary hst hlabel hx =>
    refine .temporary (Graph.statement?_congr hk ▸ hst) hlabel ?_
    rwa [outputOf, ← hk]

theorem Compilation.Owns.mono (h : c.Owns issued n x) (hissued : issued <+: issued') :
    c.Owns issued' n x := by
  cases h with
  | chosen h => exact .chosen h
  | temporary hst hlabel hx => exact .temporary hst hlabel (lookup_of_earlier hissued hx)

theorem Compilation.Owns.not_event (h : c.Owns issued n x) :
    c.graph.statement? n ≠ some .openEvent := by
  rcases h with (⟨hst, _⟩ | ⟨hst, _⟩) | ⟨hst⟩ <;> simp [hst]

theorem Compilation.Lined.mono {d : Option Key × String} (h : c.Lined issued d)
    (hissued : issued <+: issued') : c.Lined issued' d := by
  obtain ⟨n, hn, howns⟩ := h
  exact ⟨n, hn, howns.mono hissued⟩

theorem Compilation.lined_of_owns {names : List String} (h : ∀ x ∈ names, c.Owns issued n x) :
    ∀ d ∈ (names.map fun x => (some n.canonical, x)).reverse, c.Lined issued d := by
  intro d hd
  obtain ⟨x, hx, rfl⟩ := List.mem_map.mp (List.mem_reverse.mp hd)
  exact ⟨n, rfl, h x hx⟩

namespace Grounded

theorem ne_nil (h : Grounded c entry issued frames) : frames ≠ [] := by
  cases h <;> exact List.cons_ne_nil _ _

theorem mono (h : Grounded c entry issued frames) (hissued : issued <+: issued') :
    Grounded c entry issued' frames := by
  induction h with
  | head h => exact .head fun d hd => (h d hd).mono hissued
  | block h _ ih => exact .block (fun d hd => (h d hd).mono hissued) ih

theorem opens (h : Grounded c entry issued frames) {names : List String}
    (hnames : ∀ x ∈ names, c.Owns issued n x) :
    Grounded c entry issued ((Lua.Form.opens names).apply (some n.canonical) frames) :=
  .block (c.lined_of_owns hnames) h

theorem declares (h : Grounded c entry issued frames) {names : List String}
    (hnames : ∀ x ∈ names, c.Owns issued n x) :
    Grounded c entry issued ((Lua.Form.declares names).apply (some n.canonical) frames) := by
  cases h with
  | @head frame hframe =>
    change Grounded c entry issued [_ ++ (frame ++ c.headFrame entry)]
    rw [← List.append_assoc]
    exact .head (List.forall_mem_append.mpr ⟨c.lined_of_owns hnames, hframe⟩)
  | block hframe hrest =>
    exact .block (List.forall_mem_append.mpr ⟨c.lined_of_owns hnames, hframe⟩) hrest

/-- What stays when the innermost block is closed. -/
theorem tail {frame : List (Option Key × String)} (h : Grounded c entry issued (frame :: frames))
    (hne : frames ≠ []) : Grounded c entry issued frames := by
  cases h with
  | head => exact absurd rfl hne
  | block _ hrest => exact hrest

/-- The locals of the head are the last ones. -/
theorem flatten (h : Grounded c entry issued frames) :
    ∃ lined, frames.flatten = lined ++ c.headFrame entry ∧ ∀ d ∈ lined, c.Lined issued d := by
  induction h with
  | @head frame h => exact ⟨frame, by simp, h⟩
  | @block frame _ h _ ih =>
    obtain ⟨lined, hl, hlined⟩ := ih
    exact ⟨frame ++ lined, by simp [hl], List.forall_mem_append.mpr ⟨h, hlined⟩⟩

end Grounded

theorem Known.mono (h : Known c s frames) (hf : frames.flatten ⊆ frames'.flatten)
    (hlookup : ∀ n p, s'.symbols.lookup n p = s.symbols.lookup n p)
    (hissued : s.symbols.issued <+: s'.symbols.issued) : Known c s' frames' := by
  intro n p x hx
  obtain ⟨hmem, howns⟩ := h n p x (hlookup n p ▸ hx)
  exact ⟨hf hmem, fun hst => (howns hst).mono hissued⟩

theorem Known.congr (h : Known c s frames) (hs : s'.symbols = s.symbols) : Known c s' frames := by
  unfold Known
  rw [hs]
  exact h

theorem Known.grows (h : Known c s frames) (hgrows : frames.Grows frames') : Known c s frames' :=
  h.mono hgrows.subset (fun _ _ => rfl) List.prefix_rfl

/-! ## The parts of a statement -/

/-- The parts of a statement stand in the block of the statement, or in a block that the line of the
statement opened and that the parts close. The names are those that the line declares. -/
inductive Part.Nested : Option (List String) → List Part → Prop
  | nil : Nested none []
  | follow {pin : String} {rest : List Part} (h : Nested none rest) : Nested none (.follow pin :: rest)
  | comment {text : String} {rest : List Part} (ht : Lua.IsPlain text) (h : Nested none rest) :
    Nested none (.line text :: rest)
  | block {names : List String} {pin comment : String} {rest : List Part}
    (hc : Lua.IsPlain comment) (h : Nested (some names) rest) :
    Nested (some names) (.block pin comment :: rest)
  | loop {names : List String} {index : String} {rest : List Part} (hi : index ∈ names)
    (h : Nested (some names) rest) : Nested (some names) (.loop index :: rest)
  | turn {names : List String} {rest : List Part} (h : Nested (some []) rest) :
    Nested (some names) (.line "else" :: rest)
  | close {names : List String} {rest : List Part} (h : Nested none rest) :
    Nested (some names) (.line "end" :: rest)

/-- The scope in which parts run, around the one that they leave. -/
def Part.Around (c : Compilation) (node : Key) (outer frames : Lua.Frames (Option Key)) :
    Option (List String) → Prop
  | none => frames = outer
  | some names => ∃ frame, frames = frame :: outer ∧
    ∀ x ∈ names, (some node.canonical, x) ∈ frame ∧ c.Chooses node x

theorem Part.nested_sequence (pins : List Pin) : Nested none (Site.sequenceParts pins) := by
  induction pins with
  | nil => exact .nil
  | cons pin rest ih =>
    have := Lua.isPlain_comment ("sequence " ++ Text.lower pin.label)
    rw [← String.append_assoc] at this
    exact .comment this (.follow ih)

theorem Part.nested_branch (site : Site) : Nested (some []) (site.branchParts c) := by
  unfold Site.branchParts
  refine .block (Lua.isPlain_comment "then branch") ?_
  split
  · exact .close .nil
  · exact .turn (.block (Lua.isPlain_comment "else branch") (.close .nil))

/-! ## Openings -/

theorem Parameter.nameOf_luaName {pin : Key} {ps : List Parameter} (h : nameOf pin ps = some x) :
    x ∈ ps.map Parameter.luaName := by
  induction ps with
  | nil => cases h
  | cons q rest ih =>
    rw [nameOf, Option.or_eq_some_iff] at h
    rcases h with h | ⟨_, h⟩
    · exact .tail _ (ih h)
    · split at h
      · cases h
        exact .head _
      · cases h

theorem Compilation.parameters_of_event {signature : Signature}
    (h : c.event? entry = some signature) : c.parameters entry = signature.parameters := by
  unfold event? at h
  split at h
  · rename_i id hv
    have hid : entry = .text id := by
      cases entry <;> cases hv
      rfl
    rw [parameters, hid, show (Key.text id).canonical = .text id from rfl, h]
    rfl
  · cases h

/-- What an event binds is declared by the head of its function. -/
theorem Known.event {signature : Signature} (h : Known c s frames)
    (hground : Grounded c entry issued frames) (hst : c.graph.statement? m = some .openEvent)
    (hm : m.canonical = entry.canonical) (hevent : c.event? m = some signature)
    (hissued : s'.symbols.issued = s.symbols.issued)
    (hlookup : ∀ n pin, s'.symbols.lookup n pin = if n.canonical = m.canonical
      then (Parameter.nameOf pin signature.parameters).or (s.symbols.lookup n pin)
      else s.symbols.lookup n pin) : Known c s' frames := by
  intro n p x hx
  have old (hx : s.symbols.lookup n p = some x) := h n p x hx
  rw [hissued]
  rw [hlookup] at hx
  split at hx
  · rename_i hk
    rcases Option.or_eq_some_iff.mp hx with hx | ⟨_, hx⟩
    · have hstn : c.graph.statement? n = some .openEvent := (Graph.statement?_congr hk).trans hst
      refine ⟨?_, fun hne => absurd hstn hne⟩
      obtain ⟨lined, hflat, _⟩ := hground.flatten
      have hparams := c.parameters_of_event ((c.event?_congr hm).symm.trans hevent)
      obtain ⟨q, hq, rfl⟩ := List.mem_map.mp (Parameter.nameOf_luaName hx)
      rw [Graph.declarer, if_pos hstn, hflat, Compilation.headFrame, hparams]
      exact List.mem_append_right _ (List.mem_reverse.mpr (List.mem_map.mpr ⟨q, hq, rfl⟩))
    · exact old hx
  · exact old hx

/-- What a resumed coroutine binds is declared by its line. -/
theorem Known.resume {a b : String} (h : Known c s frames)
    (hst : c.graph.statement? m = some .resume)
    (ha : s'.symbols.issued.lookup (outputOf m "co_success") = some a)
    (hb : s'.symbols.issued.lookup (outputOf m "co_result") = some b)
    (hissued : s.symbols.issued <+: s'.symbols.issued)
    (hlookup : ∀ n pin, s'.symbols.lookup n pin =
      if outputOf n pin = outputOf m "result" then some b
      else if outputOf n pin = outputOf m "success" then some a else s.symbols.lookup n pin)
    (hgrows : frames.Grows frames')
    (hframes : ∀ x ∈ [a, b], (some m.canonical, x) ∈ frames'.flatten) : Known c s' frames' := by
  intro n p x hx
  have mine {label : Key} (ho : outputOf n p = outputOf m label) (hx : x ∈ [a, b])
      (howns : c.Owns s'.symbols.issued m x) : (c.graph.declarer n, x) ∈ frames'.flatten ∧
        (c.graph.statement? n ≠ some .openEvent → c.Owns s'.symbols.issued n x) := by
    have hk : n.canonical = m.canonical := congrArg Prod.fst ho
    refine ⟨?_, fun _ => howns.congr hk.symm⟩
    rw [Graph.declarer_of_ne (howns.congr hk.symm).not_event, hk]
    exact hframes x hx
  rw [hlookup] at hx
  split at hx
  · rename_i ho
    cases hx
    exact mine ho (by simp) (.temporary hst (.tail _ (.head _)) hb)
  · split at hx
    · rename_i ho
      cases hx
      exact mine ho (by simp) (.temporary hst (.head _) ha)
    · obtain ⟨hmem, howns⟩ := h n p x hx
      exact ⟨hgrows.subset hmem, fun hne => (howns hne).mono hissued⟩

/-- After the line of a statement, its parts run in a scope that is grounded, around one in which all
that the table finds is declared. -/
def Part.Hosted (c : Compilation) (entry node : Key) (s : Progress)
    (before after : Lua.Frames (Option Key)) (parts : List Part) : Prop :=
  ∃ outer inside, before.Grows outer ∧ Nested inside parts ∧ Around c node outer after inside ∧
    Known c s outer ∧ Grounded c entry s.symbols.issued after

namespace Part.Hosted

variable {parts : List Part}

/-- A statement that opens no block and declares nothing leaves the scope as it was. -/
theorem still (hknown : Known c s frames) (hground : Grounded c entry s.symbols.issued frames)
    (hsymbols : s'.symbols = s.symbols) (hparts : Nested none parts) :
    Hosted c entry n s' frames frames parts :=
  ⟨frames, none, .refl hground.ne_nil, hparts, rfl, hknown.congr hsymbols, hsymbols ▸ hground⟩

/-- The parts of a statement that opens a block see the names that its line declares. -/
theorem opens (hknown : Known c s frames) (hground : Grounded c entry s.symbols.issued frames)
    (hsymbols : s'.symbols = s.symbols) {names : List String} (hparts : Nested (some names) parts)
    (hnames : ∀ x ∈ names, c.Chooses n x) : Hosted c entry n s' frames
      ((Lua.Form.opens names).apply (some n.canonical) frames) parts := by
  refine ⟨frames, some names, .refl hground.ne_nil, hparts, ⟨_, rfl, fun x hx => ⟨?_, hnames x hx⟩⟩,
    hknown.congr hsymbols, hsymbols ▸ hground.opens fun x hx => .chosen (hnames x hx)⟩
  exact List.mem_reverse.mpr (List.mem_map_of_mem hx)

/-- What a statement declares in the block that it stands in is in scope for its parts. -/
theorem declares {names : List String} (hparts : Nested none parts)
    (hknown : Known c s' ((Lua.Form.declares names).apply (some n.canonical) frames))
    (hground : Grounded c entry s'.symbols.issued frames)
    (hnames : ∀ x ∈ names, c.Owns s'.symbols.issued n x) : Hosted c entry n s' frames
      ((Lua.Form.declares names).apply (some n.canonical) frames) parts :=
  ⟨_, none, ⟨_, rfl⟩, hparts, rfl, hknown, hground.declares hnames⟩

end Part.Hosted

/-- A line binds nothing, and does to the scope what its form says. -/
theorem Opening.perform_line_scope {site : Site} {text : String} {parts : List Part}
    {lines : List String} {new : List Visit}
    (hp : (Opening.line text parts).perform c site s = (.ok lines, s'))
    (hnotes : (Opening.line text parts).Notes issued site.node new)
    (frames : Lua.Frames (Option Key)) : s'.symbols = s.symbols ∧ ∃ k,
      new.foldr Visit.apply frames =
        (Lua.Form.ofLine (Settings.blanks k ++ text)).apply (some site.node.canonical) frames := by
  obtain ⟨_, _, rfl⟩ := Opening.perform_line hp
  cases hnotes with
  | line k => exact ⟨rfl, k, Visit.foldr_line ..⟩

/-- The line of a resumed coroutine declares the temporaries that it binds. -/
theorem Opening.perform_resume_hosted {site : Site} {call : String} {lines : List String}
    {new : List Visit} (hst : c.graph.statement? site.node = some .resume)
    (hp : (Opening.resume call).perform c site s = (.ok lines, s'))
    (hnotes : (Opening.resume call).Notes s'.symbols.issued site.node new)
    (hissued : s.symbols.Issued) (hknown : Known c s frames)
    (hground : Grounded c entry s.symbols.issued frames) : Part.Hosted c entry site.node s' frames
      (new.foldr Visit.apply frames) (Opening.resume call).parts := by
  obtain ⟨a, b, p', _, _, hw, _, _, hmore, hla, hlb, hl⟩ :=
    Opening.perform_resume c site call hissued
  obtain ⟨_, rfl, rfl⟩ := Site.written_ok (hw.symm.trans hp)
  cases hnotes with
  | @resume _ a' b' k ha hb hla' hlb' =>
    cases hla.symm.trans hla'
    cases hlb.symm.trans hlb'
    rw [Visit.foldr_line, Lua.Form.ofLine_local_pair k ha hb call]
    refine .declares (.follow .nil) ?_ (hground.mono hmore) fun x hx => ?_
    · refine hknown.resume hst hla hlb hmore hl ⟨_, rfl⟩ fun x hx => ?_
      rcases List.mem_pair.mp hx with rfl | rfl <;> simp [Lua.Form.apply]
    · rcases List.mem_pair.mp hx with rfl | rfl
      · exact .temporary hst (.head _) hla
      · exact .temporary hst (.tail _ (.head _)) hlb

theorem Opens.hosted (h : Represented c.graph) (hc : c.Unreserved) (hnames : c.NamesParameters)
    {site : Site} {st : Statement} {opening : Opening} {lines : List String}
    (hst : c.graph.statement? site.node = some st) (ho : Opens c site st opening)
    (hentry : st = .openEvent → site.node.canonical = entry.canonical)
    (hp : opening.perform c site s = (.ok lines, s')) (hissued : s.symbols.Issued)
    (hknown : Known c s frames) (hground : Grounded c entry s.symbols.issued frames) :
    ∃ new, s'.trail = new ++ s.trail ∧ lines = (texts new).reverse ∧
      (∀ v ∈ new, ∃ node text, v = .line node text) ∧
      Part.Hosted c entry site.node s' frames (new.foldr Visit.apply frames) opening.parts := by
  obtain ⟨new, ht, hnotes, hlines⟩ := Opening.perform_notes hnames ho hissued hp
  have hreverse : (texts new).reverse = texts new := by cases hnotes <;> rfl
  refine ⟨new, ht, hlines.trans hreverse.symm, hnotes.lines, ?_⟩
  have silent {parts : List Part} (ho : opening = .silent parts) (hparts : Part.Nested none parts) :
      Part.Hosted c entry site.node s' frames (new.foldr Visit.apply frames) opening.parts := by
    subst ho
    cases hp
    cases hnotes
    exact .still hknown hground rfl hparts
  have plain {text : String} {parts : List Part} (ho : opening = .line text parts)
      (htext : Lua.IsPlain text) (hparts : Part.Nested none parts) :
      Part.Hosted c entry site.node s' frames (new.foldr Visit.apply frames) opening.parts := by
    subst ho
    obtain ⟨hsymbols, k, hnew⟩ := Opening.perform_line_scope hp hnotes frames
    rw [hnew, htext k]
    exact .still hknown hground hsymbols hparts
  cases ho with
  | follow | noEvent => exact silent rfl (.follow .nil)
  | sequence => exact silent rfl (Part.nested_sequence _)
  | event hevent =>
    obtain ⟨p', hp', _, hi, hl⟩ := Opening.perform_parameters c site
      (fun q hq => (hnames _ _ hevent q hq).ne_empty) s
    cases hp.symm.trans hp'
    cases hnotes
    refine ⟨frames, none, .refl hground.ne_nil, .follow .nil, rfl, ?_, ?_⟩
    · exact hknown.event hground hst (hentry rfl) hevent hi hl
    · rw [hi]
      exact hground
  | noTarget => exact plain rfl (Lua.isPlain_comment "missing custom event target") (.follow .nil)
  | callEvent hevent =>
    obtain ⟨hname, hfree⟩ := hc.functions _ _ hevent
    exact plain rfl (Lua.isPlain_call hname hfree _) (.follow .nil)
  | call =>
    obtain ⟨hname, hfree⟩ := h.function_free hst
    exact plain rfl (Lua.isPlain_call hname hfree _) (.follow .nil)
  | assign hn =>
    obtain ⟨hname, hfree⟩ := Compilation.variableName_free hc hn
    refine plain rfl (fun k => ?_) (.follow .nil)
    rw [@String.append_assoc _ " = "]
    exact Lua.Form.ofLine_name k hname hfree (by simp [Lua.isNameChar])
  | branch =>
    obtain ⟨hsymbols, k, hnew⟩ := Opening.perform_line_scope hp hnotes frames
    rw [hnew, Lua.Form.ofLine_if]
    exact .opens hknown hground hsymbols (Part.nested_branch site) (by simp)
  | @loop index first last step hindex =>
    obtain ⟨hsymbols, k, hnew⟩ := Opening.perform_line_scope hp hnotes frames
    have hform := Lua.Form.ofLine_for k (c.nameProperty_isName hindex)
      (first ++ ", " ++ last ++ ", " ++ step ++ " do")
    simp only [String.append_assoc] at hform hnew
    rw [hnew, hform]
    refine .opens hknown hground hsymbols (.loop (.head _) (.close (.follow .nil))) fun x hx => ?_
    exact List.mem_singleton.mp hx ▸ .index hst hindex
  | @declare name value hname =>
    obtain ⟨hsymbols, k, hnew⟩ := Opening.perform_line_scope hp hnotes frames
    rw [hnew, Lua.Form.ofLine_local k (c.nameProperty_isName hname)]
    refine .declares (.follow .nil) ((hknown.congr hsymbols).grows ⟨_, rfl⟩) (hsymbols ▸ hground)
      fun x hx => ?_
    exact List.mem_singleton.mp hx ▸ .chosen (.declare hst hname)
  | resume => exact Opening.perform_resume_hosted hst hp hnotes hissued hknown hground

end

end CartGraph
