import CartGraph.Proofs.Emit.Blocks
import CartGraph.Proofs.Emit.Locals

/-! # Which locals are in scope

The table of names is a stack that the walk pushes and pops. What it answers is told by the exec
tree alone: a temporary is found as long as the walk stays in the blocks that its node stands in, the
index of a loop inside the body of the loop, the parameters of an event everywhere in its function.
-/
namespace CartGraph

/-- The name that a list of parameters gives to an output, the last one if it gives several. -/
def Parameter.nameOf (pin : Key) : List Parameter → Option String
  | [] => none
  | q :: rest => (nameOf pin rest).or (if pin = .text q.outputPin then some q.luaName else none)

/-- The outputs of a resumed coroutine, and the temporaries that they are bound to. -/
def resumeLabels : List (String × String) := [("success", "co_success"), ("result", "co_result")]

/-- The local that an output of a node is, at a place inside the blocks `bs`, after the nodes of
`seen` were emitted. -/
inductive Visible (c : Compilation) (entry : Key) (issued : List (Output × String))
    (seen : List Key) (bs : List Place) (n : Key) : Key → String → Prop
  | temporary {path pin label name} (hst : c.graph.statement? n = some .resume)
    (hseen : n.Among seen) (hpath : c.graph.ExecPath entry n path)
    (hbs : c.graph.bodies path ⊆ bs) (hlabel : (pin, label) ∈ resumeLabels)
    (hname : issued.lookup (outputOf n (.text label)) = some name) :
    Visible c entry issued seen bs n (.text pin) name
  | index {name} (hst : c.graph.statement? n = some .loop) (hbs : placeOf n "loop" ∈ bs)
    (hname : c.nameProperty n "index" "i" = .ok name) :
    Visible c entry issued seen bs n (.text "index") name
  | parameter {pin name signature} (hst : c.graph.statement? n = some .openEvent)
    (hseen : n.Among seen) (hn : n.canonical = entry.canonical)
    (hevent : c.event? entry = some signature)
    (hname : Parameter.nameOf pin signature.parameters = some name) :
    Visible c entry issued seen bs n pin name

def Scoped (c : Compilation) (entry : Key) (seen : List Key) (bs : List Place) (s : Progress) :
    Prop :=
  ∀ n p name, s.symbols.lookup n p = some name ↔
    Visible c entry s.symbols.issued seen bs n p name

def Written (log : List Visit) (n : Key) (form : Lua.Form) : Prop :=
  ∃ m text, .line m text ∈ log ∧ m.canonical = n.canonical ∧ Lua.Form.ofLine text = form

/-- The form of the line by which a node opens a block or declares locals. -/
inductive Heads (c : Compilation) (issued : List (Output × String)) (n : Key) :
    Statement → Lua.Form → Prop
  | branch : Heads c issued n .branch (.opens [])
  | loop {index : String} (hindex : c.nameProperty n "index" "i" = .ok index) :
    Heads c issued n .loop (.opens [index])
  | declare {name : String} (hname : c.nameProperty n "name" "localVar" = .ok name) :
    Heads c issued n .declare (.declares [name])
  | resume {a b : String} (ha : issued.lookup (outputOf n "co_success") = some a)
    (hb : issued.lookup (outputOf n "co_result") = some b) :
    Heads c issued n .resume (.declares [a, b])

def Statement.heads : Statement → Bool
  | .branch | .loop | .declare | .resume => true
  | _ => false

/-- The nodes that were emitted have written their lines. -/
def Settled (c : Compilation) (log : List Visit) (issued : List (Output × String)) : Prop :=
  ∀ (n : Key) (st : Statement), n.Among (statements log) → c.graph.statement? n = some st →
    st.heads = true → ∃ form, Heads c issued n st form ∧ Written log n form

section

variable {c : Compilation} {entry : Key} {issued issued' : List (Output × String)}
  {seen seen' : List Key} {bs bs' : List Place} {n p : Key} {name : String}

theorem Settled.resume {log : List Visit} (h : Settled c log issued)
    (hseen : n.Among (statements log)) (hst : c.graph.statement? n = some .resume) :
    ∃ a b, issued.lookup (outputOf n "co_success") = some a ∧
      issued.lookup (outputOf n "co_result") = some b ∧ Written log n (.declares [a, b]) := by
  obtain ⟨_, hheads, hline⟩ := h n _ hseen hst rfl
  cases hheads with
  | resume ha hb => exact ⟨_, _, ha, hb, hline⟩

theorem Settled.loop {log : List Visit} (h : Settled c log issued)
    (hseen : n.Among (statements log)) (hst : c.graph.statement? n = some .loop) :
    ∃ index, c.nameProperty n "index" "i" = .ok index ∧ Written log n (.opens [index]) := by
  obtain ⟨_, hheads, hline⟩ := h n _ hseen hst rfl
  cases hheads with
  | loop hindex => exact ⟨_, hindex, hline⟩

theorem Settled.lookup {log : List Visit} (h : Settled c log issued)
    (hseen : n.Among (statements log)) (hst : c.graph.statement? n = some .resume) {pin label : String}
    (hlabel : (pin, label) ∈ resumeLabels) : ∃ a, issued.lookup (outputOf n label) = some a := by
  obtain ⟨a, b, ha, hb, _⟩ := h.resume hseen hst
  rcases List.mem_pair.mp hlabel with hl | hl <;> cases hl
  · exact ⟨a, ha⟩
  · exact ⟨b, hb⟩

theorem Visible.imp (h : Visible c entry issued seen bs n p name)
    (htemp : ∀ path, c.graph.statement? n = some .resume → n.Among seen →
      c.graph.ExecPath entry n path → c.graph.bodies path ⊆ bs →
      n.Among seen' ∧ c.graph.bodies path ⊆ bs')
    (hissued : ∀ pin label x, c.graph.statement? n = some .resume → n.Among seen →
      (pin, label) ∈ resumeLabels → issued.lookup (outputOf n (.text label)) = some x →
      issued'.lookup (outputOf n (.text label)) = some x)
    (hindex : c.graph.statement? n = some .loop → placeOf n "loop" ∈ bs → placeOf n "loop" ∈ bs')
    (hparam : n.canonical = entry.canonical → n.Among seen → n.Among seen') :
    Visible c entry issued' seen' bs' n p name := by
  cases h with
  | temporary hst hseen hpath hbs hlabel hname =>
    obtain ⟨hseen', hbs'⟩ := htemp _ hst hseen hpath hbs
    exact .temporary hst hseen' hpath hbs' hlabel (hissued _ _ _ hst hseen hlabel hname)
  | index hst hbs hname => exact .index hst (hindex hst hbs) hname
  | parameter hst hseen hn hevent hname =>
    exact .parameter hst (hparam hn hseen) hn hevent hname

/-- What is visible does not change when more names are issued. -/
theorem Visible.issue_iff {log : List Visit} (hsettled : Settled c log issued)
    (hissued : issued <+: issued') :
    Visible c entry issued' (statements log) bs n p name ↔
      Visible c entry issued (statements log) bs n p name := by
  constructor
  · intro h
    refine h.imp (fun _ _ hseen _ hbs => ⟨hseen, hbs⟩) (fun pin label x hst hseen hlabel hx => ?_)
      (fun _ hb => hb) fun _ hseen => hseen
    obtain ⟨a, ha⟩ := hsettled.lookup hseen hst hlabel
    rw [lookup_of_earlier hissued ha] at hx
    exact ha.trans hx
  · intro h
    exact h.imp (fun _ _ hseen _ hbs => ⟨hseen, hbs⟩)
      (fun _ _ _ _ _ _ hx => lookup_of_earlier hissued hx) (fun _ hb => hb) fun _ hseen => hseen

/-! ## Opening and closing blocks -/

variable {site : Site} {ws : List Connection} {s s' : Progress} {pin : String}

/-- Nothing that was emitted stands in a block that is opened, so only the index of the loop that
opens it can come into scope. -/
theorem Visible.open_iff (hg : Loaded c.graph) (hsite : site.Stands c.graph entry ws)
    (hfresh : ∀ m ∈ seen, ∀ path, c.graph.ExecPath entry m path → ¬ site.Leads ws pin path)
    (hn : c.graph.statement? n = some .loop → n.canonical ≠ site.node.canonical) :
    Visible c entry issued seen (bs ++ [placeOf site.node pin]) n p name ↔
      Visible c entry issued seen bs n p name := by
  constructor
  · intro h
    refine h.imp (fun path _ hseen hpath hbs => ⟨hseen, fun b hb => ?_⟩)
      (fun _ _ _ _ _ _ hx => hx) (fun hst hb => ?_) fun _ hseen => hseen
    · rcases List.mem_append.mp (hbs hb) with hb' | hb'
      · exact hb'
      · obtain ⟨m, hm, hk⟩ := List.mem_map.mp hseen
        rw [List.mem_singleton.mp hb'] at hb
        exact absurd (hsite.leads hg hpath hb) (hfresh m hm path (hpath.congr hk.symm))
    · rcases List.mem_append.mp hb with hb | hb
      · exact hb
      · exact absurd (congrArg Prod.fst (List.mem_singleton.mp hb)) (hn hst)
  · intro h
    exact h.imp (fun _ _ hseen _ hbs => ⟨hseen, fun b hb => List.mem_append_left _ (hbs hb)⟩)
      (fun _ _ _ _ _ _ hx => hx) (fun _ hb => List.mem_append_left _ hb) fun _ hseen => hseen

theorem Scoped.openBranch (hg : Loaded c.graph) (hsite : site.Stands c.graph entry ws)
    (hst : c.graph.statement? site.node = some .branch)
    (hfresh : ∀ m ∈ seen, ∀ path, c.graph.ExecPath entry m path → ¬ site.Leads ws pin path)
    (h : Scoped c entry seen bs s) : Scoped c entry seen (bs ++ [placeOf site.node pin]) s := by
  intro n p name
  rw [h n p name]
  refine (Visible.open_iff hg hsite hfresh fun hn hk => ?_).symm
  rw [Graph.statement?_congr hk, hst] at hn
  cases hn

/-- Inside the body of a loop the index is visible besides. -/
theorem Scoped.openLoop (hg : Loaded c.graph) (hsite : site.Stands c.graph entry ws)
    (hst : c.graph.statement? site.node = some .loop) {index : String}
    (hindex : c.nameProperty site.node "index" "i" = .ok index)
    (hfresh : ∀ m ∈ seen, ∀ path, c.graph.ExecPath entry m path → ¬ site.Leads ws "loop" path)
    (h : Scoped c entry seen bs s) : Scoped c entry seen (bs ++ [placeOf site.node "loop"])
      (s.opened.bound site.node "index" index) := by
  intro n p name
  have hlookup : (s.opened.bound site.node "index" index).symbols.lookup n p =
      if outputOf n p = outputOf site.node "index" then some index else s.symbols.lookup n p :=
    SymbolTable.lookup_bind ..
  rw [hlookup]
  change _ ↔ Visible c entry s.symbols.issued seen _ n p name
  by_cases hk : n.canonical = site.node.canonical
  · -- of a loop nothing but the index is visible
    have hloop : c.graph.statement? n = some .loop := (Graph.statement?_congr hk).trans hst
    have hn : c.nameProperty n "index" "i" = .ok index := c.nameProperty_congr hk.symm hindex
    have honly {bs : List Place} (hv : Visible c entry s.symbols.issued seen bs n p name) :
        p = .text "index" ∧ name = index := by
      cases hv with
      | temporary hst' => cases hst'.symm.trans hloop
      | index _ _ hname => exact ⟨rfl, Except.ok.inj (hname.symm.trans hn)⟩
      | parameter hst' => cases hst'.symm.trans hloop
    have hplace : placeOf n "loop" ∈ bs ++ [placeOf site.node "loop"] := by
      refine List.mem_append_right _ (List.mem_singleton.mpr ?_)
      unfold placeOf
      rw [hk]
    split
    · rename_i ho
      have hp : p = .text "index" := Key.canonical_eq_text (congrArg Prod.snd ho)
      constructor
      · intro hname
        rw [hp, ← Option.some.inj hname]
        exact .index hloop hplace hn
      · intro hv
        rw [(honly hv).2]
    · rename_i ho
      have hp : p ≠ .text "index" := fun hp => ho (by rw [hp, outputOf, outputOf, hk])
      rw [h n p name]
      exact ⟨fun hv => absurd (honly hv).1 hp, fun hv => absurd (honly hv).1 hp⟩
  · rw [if_neg fun ho => hk (congrArg Prod.fst ho), h n p name]
    exact (Visible.open_iff hg hsite hfresh fun _ => hk).symm

/-- What was emitted inside a block is out of scope when the block is closed. -/
theorem Scoped.close (hg : Loaded c.graph) (hsite : site.Stands c.graph entry ws)
    {log : List Visit} {inner : List Key} (hsettled : Settled c log s.symbols.issued)
    (hbody : c.graph.Body site.node pin)
    (hinner : ∀ m ∈ inner, ∃ path, c.graph.ExecPath entry m path ∧ site.Leads ws pin path)
    (hlookup : ∀ n p, s'.symbols.lookup n p = s.symbols.lookup n p)
    (hissued : s.symbols.issued <+: s'.symbols.issued)
    (h : Scoped c entry (statements log) (c.graph.bodies ws) s) :
    Scoped c entry (inner ++ statements log) (c.graph.bodies ws) s' := by
  intro n p name
  rw [hlookup, h n p name, ← Visible.issue_iff hsettled hissued]
  -- a node of the block has the block on its path, which the place outside of it has not
  have hout {path : List Connection} (hpath : c.graph.ExecPath entry n path)
      (hseen : n.Among (inner ++ statements log))
      (hp : placeOf site.node pin ∉ c.graph.bodies path) : n.Among (statements log) := by
    unfold Key.Among at hseen ⊢
    rw [List.map_append] at hseen
    refine (List.mem_append.mp hseen).resolve_left fun hm => ?_
    obtain ⟨m, hm, hk⟩ := List.mem_map.mp hm
    obtain ⟨path', hpath', hl⟩ := hinner m hm
    rw [Graph.ExecPath.unique hg hpath (hpath'.congr hk)] at hp
    exact hp (hl.mem_bodies hbody)
  constructor
  · intro hv
    exact hv.imp (fun _ _ hseen _ hbs => ⟨hseen.mono inner, hbs⟩) (fun _ _ _ _ _ _ hx => hx)
      (fun _ hb => hb) fun _ hseen => hseen.mono inner
  · intro hv
    refine hv.imp (fun path _ hseen hpath hbs => ⟨?_, hbs⟩) (fun _ _ _ _ _ _ hx => hx)
      (fun _ hb => hb) fun hn hseen => ?_
    · exact hout hpath hseen fun hb => hsite.not_mem_bodies hg pin (hbs hb)
    · exact hout (.start hn) hseen fun hb => nomatch hb

end

/-! ## What openings bind -/

theorem Compilation.nameProperty_isName {c : Compilation} {node : Key} {key fallback name : String}
    (h : c.nameProperty node key fallback = .ok name) : Lua.IsName name := by
  obtain ⟨raw, hraw⟩ := c.nameProperty_ok h
  exact hraw ▸ Lua.sanitize_isName raw

/-- A line is its text after blanks. -/
theorem Compilation.line_ok {c : Compilation} {level : Int} {text full : String}
    (h : c.line level text = .ok full) : ∃ k, full = Settings.blanks k ++ text := by
  unfold line Settings.indent at h
  cases hw : c.settings.width with
  | error e => rw [hw] at h; cases h
  | ok width =>
    rw [hw] at h
    exact ⟨width * level.toNat, (Except.ok.inj h).symm⟩

theorem Site.written_ok {site : Site} {c : Compilation} {level : Int} {text : String}
    {p p' : Progress} {lines : List String} (h : site.written c level text p = (.ok lines, p')) :
    ∃ k, lines = [Settings.blanks k ++ text] ∧
      p' = p.note (.line site.node (Settings.blanks k ++ text)) := by
  unfold written at h
  cases hl : c.line level text with
  | error e => rw [hl] at h; cases h
  | ok line =>
    rw [hl] at h
    obtain ⟨k, rfl⟩ := c.line_ok hl
    exact ⟨k, (Except.ok.inj (congrArg Prod.fst h)).symm, (congrArg Prod.snd h).symm⟩

/-- The parameters of an event are bound one by one, a later one over an earlier one. -/
theorem Site.bindParameters_spec (site : Site) {ps : List Parameter}
    (hne : ∀ q ∈ ps, q.luaName ≠ "") (p : Progress) : ∃ p', site.bindParameters ps p = (.ok (), p') ∧
      p'.trail = p.trail ∧ p'.symbols.issued = p.symbols.issued ∧
      ∀ n pin, p'.symbols.lookup n pin = if n.canonical = site.node.canonical
        then (Parameter.nameOf pin ps).or (p.symbols.lookup n pin) else p.symbols.lookup n pin := by
  induction ps generalizing p with
  | nil => exact ⟨p, rfl, rfl, rfl, fun n pin => by simp [Parameter.nameOf]⟩
  | cons q rest ih =>
    obtain ⟨hq, hrest⟩ := List.forall_mem_cons.mp hne
    obtain ⟨p', hp', ht, hi, hl⟩ := ih hrest (p.bound site.node q.outputPin q.luaName)
    refine ⟨p', ?_, ht, hi, fun n pin => ?_⟩
    · change Emit.bind (Emit.bindOutput site.node q.outputPin (some q.luaName)) _ p = _
      unfold Emit.bind
      rw [Emit.bindOutput_some hq]
      exact hp'
    · have hbound : (p.bound site.node q.outputPin q.luaName).symbols.lookup n pin =
          if outputOf n pin = outputOf site.node q.outputPin then some q.luaName
          else p.symbols.lookup n pin := SymbolTable.lookup_bind ..
      rw [hl, hbound, Parameter.nameOf]
      by_cases hk : n.canonical = site.node.canonical
      · rw [if_pos hk, if_pos hk, Option.or_assoc]
        congr 1
        by_cases hpin : pin = .text q.outputPin
        · rw [if_pos hpin, if_pos (by rw [hpin, outputOf, outputOf, hk])]
          rfl
        · have ho : outputOf n pin ≠ outputOf site.node q.outputPin := fun ho =>
            hpin (Key.canonical_eq_text (congrArg Prod.snd ho))
          rw [if_neg hpin, if_neg ho]
          rfl
      · rw [if_neg hk, if_neg hk, if_neg fun ho => hk (congrArg Prod.fst ho)]

theorem Opening.perform_parameters (c : Compilation) (site : Site) {ps : List Parameter}
    (hne : ∀ q ∈ ps, q.luaName ≠ "") (p : Progress) :
    ∃ p', (Opening.parameters ps).perform c site p = (.ok [], p') ∧ p'.trail = p.trail ∧
      p'.symbols.issued = p.symbols.issued ∧
      ∀ n pin, p'.symbols.lookup n pin = if n.canonical = site.node.canonical
        then (Parameter.nameOf pin ps).or (p.symbols.lookup n pin) else p.symbols.lookup n pin := by
  obtain ⟨p', hp', ht, hi, hl⟩ := site.bindParameters_spec hne p
  refine ⟨p', ?_, ht, hi, hl⟩
  change Emit.bind (site.bindParameters ps) _ p = _
  unfold Emit.bind
  rw [hp']
  rfl

/-- A resumed coroutine binds two temporaries, then writes the line that declares them. -/
theorem Opening.perform_resume (c : Compilation) (site : Site) (call : String) {p : Progress}
    (hissued : p.symbols.Issued) : ∃ a b p', Lua.IsName a ∧ Lua.IsName b ∧
      (Opening.resume call).perform c site p =
        site.written c site.level ("local " ++ a ++ ", " ++ b ++ " = " ++ call) p' ∧
      p'.trail = p.trail ∧ p'.symbols.Issued ∧ p.symbols.issued <+: p'.symbols.issued ∧
      p'.symbols.issued.lookup (outputOf site.node "co_success") = some a ∧
      p'.symbols.issued.lookup (outputOf site.node "co_result") = some b ∧
      ∀ n pin, p'.symbols.lookup n pin = if outputOf n pin = outputOf site.node "result" then some b
        else if outputOf n pin = outputOf site.node "success" then some a
        else p.symbols.lookup n pin := by
  have named {t : SymbolTable} (ht : t.Issued) (label : Key) :
      Lua.IsName (t.temp site.node label).1 := by
    obtain ⟨l₁, l₂, hl, _⟩ := List.lookup_eq_some_iff.mp (t.temp_lookup site.node label)
    refine (ht.temp site.node label).isName (outputOf site.node label, _) ?_
    rw [hl]
    exact List.mem_append_right _ (.head _)
  let t₁ := p.symbols.temp site.node "co_success"
  let u₁ := t₁.2.bind site.node "success" t₁.1
  let t₂ := u₁.temp site.node "co_result"
  have hu₁ : u₁.Issued := (hissued.temp site.node "co_success").congr rfl
  have ha : Lua.IsName t₁.1 := named hissued _
  have hb : Lua.IsName t₂.1 := named hu₁ _
  have ht₂ := hu₁.temp site.node "co_result"
  have hmore : t₁.2.issued <+: t₂.2.issued := u₁.temp_issued site.node "co_result"
  refine ⟨t₁.1, t₂.1, { p with symbols := t₂.2.bind site.node "result" t₂.1 }, ha, hb, ?_, rfl,
    ht₂.congr rfl, (p.symbols.temp_issued ..).trans hmore,
    lookup_of_earlier hmore (p.symbols.temp_lookup ..), u₁.temp_lookup .., fun n pin => ?_⟩
  · rw [← Site.lineAt_eq, Opening.perform]
    have hbind₁ := Emit.bindOutput_some ha.ne_empty site.node "success" { p with symbols := t₁.2 }
    have hbind₂ := Emit.bindOutput_some hb.ne_empty site.node "result" { p with symbols := t₂.2 }
    change Emit.bind (Emit.temp site.node "co_success") _ p = _
    unfold Emit.bind
    change Emit.bind (Emit.bindOutput site.node "success" (some t₁.1)) _ { p with symbols := t₁.2 } = _
    unfold Emit.bind
    rw [hbind₁]
    change Emit.bind (Emit.temp site.node "co_result") _ { p with symbols := u₁ } = _
    unfold Emit.bind
    change Emit.bind (Emit.bindOutput site.node "result" (some t₂.1)) _ { p with symbols := t₂.2 } = _
    unfold Emit.bind
    rw [hbind₂]
    rfl
  · change (t₂.2.bind site.node "result" t₂.1).lookup n pin = _
    rw [SymbolTable.lookup_bind, SymbolTable.lookup_temp, SymbolTable.lookup_bind,
      SymbolTable.lookup_temp]

/-! ## Entering a node -/

def Compilation.NamesParameters (c : Compilation) : Prop :=
  ∀ v signature, c.event? v = some signature → ∀ q ∈ signature.parameters, Lua.IsName q.luaName

section

variable {c : Compilation} {entry node : Key} {seen : List Key} {bs : List Place}
  {ws : List Connection} {s s' : Progress} {issued issued' : List (Output × String)}

theorem Key.among_cons {n m : Key} : n.Among (m :: seen) ↔ n.canonical = m.canonical ∨ n.Among seen :=
  List.mem_cons

theorem Written.mono {log log' : List Visit} {n m : Key} {form : Lua.Form} (h : Written log n form)
    (hlog : ∀ v ∈ log, v ∈ log') (hk : n.canonical = m.canonical) : Written log' m form := by
  obtain ⟨k, text, hl, hkn, hf⟩ := h
  exact ⟨k, text, hlog _ hl, hkn.trans hk, hf⟩

theorem Heads.mono {n m : Key} {st : Statement} {form : Lua.Form} (h : Heads c issued n st form)
    (hissued : issued <+: issued') (hk : n.canonical = m.canonical) : Heads c issued' m st form := by
  have hout (label : Key) : outputOf m label = outputOf n label := by rw [outputOf, outputOf, hk]
  cases h with
  | branch => exact .branch
  | loop hindex => exact .loop (c.nameProperty_congr hk hindex)
  | declare hname => exact .declare (c.nameProperty_congr hk hname)
  | resume ha hb =>
    refine .resume ?_ ?_ <;> rw [hout]
    · exact lookup_of_earlier hissued ha
    · exact lookup_of_earlier hissued hb

theorem Settled.enter {log log' : List Visit} {st : Statement} (h : Settled c log issued)
    (hissued : issued <+: issued') (hlog : ∀ v ∈ log, v ∈ log')
    (hs : statements log' = node :: statements log) (hst : c.graph.statement? node = some st)
    (hnode : st.heads = true → ∃ form, Heads c issued' node st form ∧ Written log' node form) :
    Settled c log' issued' := by
  intro n st' hn hst' hheads
  rw [hs, Key.among_cons] at hn
  rcases hn with hk | hn
  · cases hst.symm.trans ((Graph.statement?_congr hk).symm.trans hst')
    obtain ⟨form, hform, hline⟩ := hnode hheads
    exact ⟨form, hform.mono List.prefix_rfl hk.symm, hline.mono (fun _ hv => hv) hk.symm⟩
  · obtain ⟨form, hform, hline⟩ := h n st' hn hst' hheads
    exact ⟨form, hform.mono hissued rfl, hline.mono hlog rfl⟩

/-- Of a node that was not emitted nothing is visible, unless the place is inside of it. -/
theorem Visible.not_new {n p : Key} {name : String} (hnew : ¬ n.Among seen)
    (hst : c.graph.statement? n ≠ some .loop) : ¬ Visible c entry issued seen bs n p name := by
  intro hv
  cases hv with
  | temporary _ hseen => exact hnew hseen
  | index hst' => exact hst hst'
  | parameter _ hseen => exact hnew hseen

/-- A node that is emitted changes nothing for other nodes. -/
theorem Visible.cons_iff {n p : Key} {name : String} (hk : n.canonical ≠ node.canonical) :
    Visible c entry issued (node :: seen) bs n p name ↔ Visible c entry issued seen bs n p name := by
  constructor
  · intro hv
    exact hv.imp (fun _ _ hseen _ hbs => ⟨(Key.among_cons.mp hseen).resolve_left hk, hbs⟩)
      (fun _ _ _ _ _ _ hx => hx) (fun _ hb => hb)
      fun _ hseen => (Key.among_cons.mp hseen).resolve_left hk
  · intro hv
    exact hv.imp (fun _ _ hseen _ hbs => ⟨hseen.mono [node], hbs⟩) (fun _ _ _ _ _ _ hx => hx)
      (fun _ hb => hb) fun _ hseen => hseen.mono [node]

/-- A node that binds nothing brings nothing into scope. -/
theorem Scoped.enter {st : Statement} (hst : c.graph.statement? node = some st) (hr : st ≠ .resume)
    (he : st = .openEvent → c.event? node = none) (h : Scoped c entry seen bs s) :
    Scoped c entry (node :: seen) bs s := by
  intro n p name
  rw [h n p name]
  by_cases hk : n.canonical = node.canonical
  · have hstn : c.graph.statement? n = some st := (Graph.statement?_congr hk).trans hst
    constructor
    · intro hv
      exact hv.imp (fun _ _ hseen _ hbs => ⟨hseen.mono [node], hbs⟩) (fun _ _ _ _ _ _ hx => hx)
        (fun _ hb => hb) fun _ hseen => hseen.mono [node]
    · intro hv
      cases hv with
      | temporary hst' => exact absurd (Option.some.inj (hstn.symm.trans hst')) hr
      | index hst' hbs hname => exact .index hst' hbs hname
      | parameter hst' _ hn hevent =>
        rw [c.event?_congr (hn.symm.trans hk), he (Option.some.inj (hstn.symm.trans hst'))] at hevent
        cases hevent
  · exact (Visible.cons_iff hk).symm

theorem Scoped.enterEvent {signature : Signature} (hst : c.graph.statement? node = some .openEvent)
    (hnode : node.canonical = entry.canonical) (hevent : c.event? node = some signature)
    (hnew : ¬ node.Among seen) (hissued : s'.symbols.issued = s.symbols.issued)
    (hlookup : ∀ n pin, s'.symbols.lookup n pin = if n.canonical = node.canonical
      then (Parameter.nameOf pin signature.parameters).or (s.symbols.lookup n pin)
      else s.symbols.lookup n pin)
    (h : Scoped c entry seen bs s) : Scoped c entry (node :: seen) bs s' := by
  intro n p name
  rw [hlookup, hissued]
  by_cases hk : n.canonical = node.canonical
  · have hstn : c.graph.statement? n = some .openEvent := (Graph.statement?_congr hk).trans hst
    have hold : s.symbols.lookup n p = none := by
      refine Option.eq_none_iff_forall_ne_some.mpr fun x hx => ?_
      exact Visible.not_new (fun hn => hnew (hn.congr hk)) (by simp [hstn]) ((h n p x).mp hx)
    have hentry : c.event? entry = some signature := (c.event?_congr hnode).symm.trans hevent
    rw [if_pos hk, hold, Option.or_none]
    constructor
    · exact fun hname => .parameter hstn (Key.among_cons.mpr (.inl hk)) (hk.trans hnode) hentry hname
    · intro hv
      cases hv with
      | temporary hst' => cases hst'.symm.trans hstn
      | index hst' => cases hst'.symm.trans hstn
      | parameter _ _ _ hevent' hname =>
        cases hentry.symm.trans hevent'
        exact hname
  · rw [if_neg hk, h n p name]
    exact (Visible.cons_iff hk).symm

theorem Scoped.enterResume {log : List Visit} {a b : String}
    (hst : c.graph.statement? node = some .resume) (hpath : c.graph.ExecPath entry node ws)
    (hnew : ¬ node.Among (statements log)) (hsettled : Settled c log s.symbols.issued)
    (hissued : s.symbols.issued <+: s'.symbols.issued)
    (ha : s'.symbols.issued.lookup (outputOf node "co_success") = some a)
    (hb : s'.symbols.issued.lookup (outputOf node "co_result") = some b)
    (hlookup : ∀ n pin, s'.symbols.lookup n pin =
      if outputOf n pin = outputOf node "result" then some b
      else if outputOf n pin = outputOf node "success" then some a else s.symbols.lookup n pin)
    (h : Scoped c entry (statements log) (c.graph.bodies ws) s) :
    Scoped c entry (node :: statements log) (c.graph.bodies ws) s' := by
  intro n p name
  rw [hlookup]
  by_cases hk : n.canonical = node.canonical
  · have hstn : c.graph.statement? n = some .resume := (Graph.statement?_congr hk).trans hst
    have hold : s.symbols.lookup n p = none := by
      refine Option.eq_none_iff_forall_ne_some.mpr fun x hx => ?_
      exact Visible.not_new (fun hn => hnew (hn.congr hk)) (by simp [hstn]) ((h n p x).mp hx)
    have hout (label : String) : outputOf n p = outputOf node label ↔ p = .text label := by
      refine ⟨fun ho => Key.canonical_eq_text (congrArg Prod.snd ho), fun hp => ?_⟩
      rw [hp, outputOf, outputOf, hk]
    have hmine (label : Key) : outputOf n label = outputOf node label := by
      rw [outputOf, outputOf, hk]
    rw [hold]
    constructor
    · have visible {pin label : String} (hlabel : (pin, label) ∈ resumeLabels)
          (hname : s'.symbols.issued.lookup (outputOf node label) = some name) :
          Visible c entry s'.symbols.issued (node :: statements log) (c.graph.bodies ws) n
            (.text pin) name :=
        .temporary hstn (Key.among_cons.mpr (.inl hk)) (hpath.congr hk.symm) (fun _ hb => hb) hlabel
          ((hmine label).symm ▸ hname)
      split
      · rename_i ho
        intro hname
        rw [(hout "result").mp ho]
        exact visible (.tail _ (.head _)) (Option.some.inj hname ▸ hb)
      · split
        · rename_i ho
          intro hname
          rw [(hout "success").mp ho]
          exact visible (.head _) (Option.some.inj hname ▸ ha)
        · exact fun hname => nomatch hname
    · intro hv
      cases hv with
      | temporary _ _ _ _ hlabel hname =>
        rw [hmine] at hname
        rcases List.mem_pair.mp hlabel with hl | hl <;> cases hl
        · have hne : outputOf n (.text "success") ≠ outputOf node "result" := fun ho => by
            have : Key.text "success" = Key.text "result" := congrArg Prod.snd ho
            exact absurd this (by decide)
          rw [if_neg hne, if_pos (hmine _)]
          exact ha.symm.trans hname
        · rw [if_pos (hmine _)]
          exact hb.symm.trans hname
      | index hst' => cases hst'.symm.trans hstn
      | parameter hst' => cases hst'.symm.trans hstn
  · have hne (label : Key) : outputOf n p ≠ outputOf node label := fun ho =>
      hk (congrArg Prod.fst ho)
    rw [if_neg (hne _), if_neg (hne _), h n p name, ← Visible.issue_iff hsettled hissued]
    exact (Visible.cons_iff hk).symm

/-- What holds between the tasks of a function, given what was noted before the function. -/
structure Held (c : Compilation) (entry : Key) (base : List Visit) (bs : List Place)
    (log : List Visit) (s : Progress) : Prop where
  trail : s.trail = log ++ base
  table : Scoped c entry (statements log) bs s
  settled : Settled c log s.symbols.issued
  issued : s.symbols.Issued

def texts (log : List Visit) : List String := log.filterMap Visit.text?

theorem statements_append (a b : List Visit) : statements (a ++ b) = statements a ++ statements b :=
  List.filterMap_append

/-- Openings note lines only. -/
theorem lines_admits : Progress.Admits fun s s' =>
    ∃ new, s'.trail = new ++ s.trail ∧ ∀ v ∈ new, ∃ node text, v = .line node text where
  refl _ := ⟨[], rfl, fun _ hv => nomatch hv⟩
  trans := by
    rintro _ _ _ ⟨new, ht, hn⟩ ⟨more, ht', hm⟩
    refine ⟨more ++ new, by rw [ht', ht, List.append_assoc], fun v hv => ?_⟩
    exact (List.mem_append.mp hv).elim (hm v) (hn v)
  line s node text := ⟨[.line node text], rfl, fun v hv => ⟨node, text, List.mem_singleton.mp hv⟩⟩
  bound _ _ _ _ := ⟨[], rfl, fun _ hv => nomatch hv⟩
  temp _ _ _ := ⟨[], rfl, fun _ hv => nomatch hv⟩

theorem statements_lines {new : List Visit} (h : ∀ v ∈ new, ∃ node text, v = .line node text)
    (log : List Visit) : statements (new ++ log) = statements log := by
  have hnone : new.filterMap Visit.statement? = [] := by
    refine List.filterMap_eq_nil_iff.mpr fun v hv => ?_
    obtain ⟨node, text, rfl⟩ := h v hv
    rfl
  rw [statements, List.filterMap_append, hnone]
  rfl

/-- Entering a node notes its statement, then lookups for its inputs, then lines. -/
theorem statements_entered (node : Key) (level : Int) (log : List Visit) {asked lines : List Visit}
    (hasked : statements asked = []) (hlines : ∀ v ∈ lines, ∃ node text, v = .line node text) :
    statements ((lines ++ asked ++ [.statement node level]) ++ log) = node :: statements log := by
  rw [List.append_assoc, List.append_assoc, statements_lines hlines, statements_append, hasked]
  rfl

/-- What an opening notes, given the temporaries that are issued. -/
inductive Opening.Notes (issued : List (Output × String)) (node : Key) :
    Opening → List Visit → Prop
  | silent {parts : List Part} : Notes issued node (.silent parts) []
  | parameters {ps : List Parameter} : Notes issued node (.parameters ps) []
  | line {text : String} {parts : List Part} (k : Nat) :
    Notes issued node (.line text parts) [.line node (Settings.blanks k ++ text)]
  | resume {call a b : String} (k : Nat) (ha : Lua.IsName a) (hb : Lua.IsName b)
    (hla : issued.lookup (outputOf node "co_success") = some a)
    (hlb : issued.lookup (outputOf node "co_result") = some b) :
    Notes issued node (.resume call)
      [.line node (Settings.blanks k ++ ("local " ++ a ++ ", " ++ b ++ " = " ++ call))]

theorem Opening.perform_line {site : Site} {text : String} {parts : List Part} {lines : List String}
    (h : (Opening.line text parts).perform c site s = (.ok lines, s')) :
    ∃ k, lines = [Settings.blanks k ++ text] ∧
      s' = s.note (.line site.node (Settings.blanks k ++ text)) := by
  have hw : site.written c site.level text s = (.ok lines, s') :=
    (site.lineAt_eq c site.level text s).symm.trans h
  exact Site.written_ok hw

/-- The lines that an opening answers are those that it notes. -/
theorem Opening.perform_notes {site : Site} {st : Statement} {opening : Opening}
    {lines : List String} (hnames : c.NamesParameters) (ho : Opens c site st opening)
    (hissued : s.symbols.Issued) (hp : opening.perform c site s = (.ok lines, s')) :
    ∃ new, s'.trail = new ++ s.trail ∧ opening.Notes s'.symbols.issued site.node new ∧
      lines = texts new := by
  cases opening with
  | silent parts =>
    cases hp
    exact ⟨[], rfl, .silent, rfl⟩
  | parameters ps =>
    have hne : ∀ q ∈ ps, q.luaName ≠ "" := by
      cases ho with
      | event hevent => exact fun q hq => (hnames _ _ hevent q hq).ne_empty
    obtain ⟨p', hp', ht, _⟩ := Opening.perform_parameters c site hne s
    cases hp.symm.trans hp'
    exact ⟨[], ht, .parameters, rfl⟩
  | line text parts =>
    obtain ⟨k, rfl, rfl⟩ := Opening.perform_line hp
    exact ⟨[_], rfl, .line k, rfl⟩
  | resume call =>
    obtain ⟨a, b, p', ha, hb, hw, ht, _, _, hla, hlb, _⟩ := Opening.perform_resume c site call hissued
    obtain ⟨k, rfl, rfl⟩ := Site.written_ok (hw.symm.trans hp)
    exact ⟨[_], congrArg (_ :: ·) ht, .resume k ha hb hla hlb, rfl⟩

theorem Opening.Notes.lines {opening : Opening} {new : List Visit}
    (h : opening.Notes issued node new) : ∀ v ∈ new, ∃ node text, v = .line node text := by
  cases h with
  | silent | parameters => exact fun _ hv => nomatch hv
  | line k => exact fun v hv => ⟨_, _, List.mem_singleton.mp hv⟩
  | resume k => exact fun v hv => ⟨_, _, List.mem_singleton.mp hv⟩

/-- The line of a statement that opens a block or declares locals. -/
theorem Opens.heads {site : Site} {st : Statement} {opening : Opening} {new : List Visit}
    (ho : Opens c site st opening) (hn : opening.Notes issued site.node new)
    (hst : st.heads = true) :
    ∃ text, new = [.line site.node text] ∧ Heads c issued site.node st (Lua.Form.ofLine text) := by
  cases ho with
  | branch =>
    cases hn with
    | line k => exact ⟨_, rfl, Lua.Form.ofLine_if k _ ▸ .branch⟩
  | loop hindex =>
    cases hn with
    | line k =>
      have hform := Lua.Form.ofLine_for k (c.nameProperty_isName hindex)
      simp only [String.append_assoc] at hform ⊢
      exact ⟨_, rfl, hform _ ▸ .loop hindex⟩
  | declare hname =>
    cases hn with
    | line k => exact ⟨_, rfl, Lua.Form.ofLine_local k (c.nameProperty_isName hname) _ ▸ .declare hname⟩
  | resume =>
    cases hn with
    | resume k ha hb hla hlb =>
      exact ⟨_, rfl, Lua.Form.ofLine_local_pair k ha hb _ ▸ .resume hla hlb⟩
  | _ => cases hst

/-- What a statement binds comes into scope. -/
theorem Scoped.opens (hg : Loaded c.graph) (hnames : c.NamesParameters) {log : List Visit}
    {level : Int} {path : List Key} {st : Statement} {opening : Opening} {lines : List String}
    (hpath : c.graph.ExecPath entry node ws) (hnew : ¬ node.Among (statements log))
    (hst : c.graph.statement? node = some st) (ho : Opens c (.enter node level path) st opening)
    (hsettled : Settled c log s.symbols.issued) (hissued : s.symbols.Issued)
    (hp : opening.perform c (.enter node level path) s = (.ok lines, s'))
    (h : Scoped c entry (statements log) (c.graph.bodies ws) s) :
    Scoped c entry (node :: statements log) (c.graph.bodies ws) s' := by
  have unbound (hr : st ≠ .resume) (he : st = .openEvent → c.event? node = none)
      (hsym : s'.symbols = s.symbols) :
      Scoped c entry (node :: statements log) (c.graph.bodies ws) s' := by
    unfold Scoped
    rw [hsym]
    exact h.enter hst hr he
  have silent {parts} (ho : opening = .silent parts) : s'.symbols = s.symbols := by
    subst ho
    cases hp
    rfl
  have line {text parts} (ho : opening = .line text parts) : s'.symbols = s.symbols := by
    subst ho
    obtain ⟨_, _, rfl⟩ := Opening.perform_line hp
    rfl
  cases ho with
  | follow | sequence => exact unbound (by simp) (by simp) (silent rfl)
  | noEvent hevent => exact unbound (by simp) (fun _ => hevent) (silent rfl)
  | event hevent =>
    obtain ⟨p', hp', _, hi, hl⟩ := Opening.perform_parameters c (.enter node level path)
      (fun q hq => (hnames _ _ hevent q hq).ne_empty) s
    cases hp.symm.trans hp'
    exact h.enterEvent hst (hpath.of_event hg hst) hevent hnew hi hl
  | @resume call =>
    obtain ⟨a, b, p', _, _, hw, _, _, hmore, hla, hlb, hl⟩ :=
      Opening.perform_resume c (.enter node level path) call hissued
    obtain ⟨k, rfl, rfl⟩ := Site.written_ok (hw.symm.trans hp)
    exact h.enterResume hst hpath hnew hsettled hmore hla hlb hl
  | _ => exact unbound (by simp) (by simp) (line rfl)

/-- A node is entered and opens: what holds before holds after. -/
theorem Held.enter (hg : Loaded c.graph) (hnames : c.NamesParameters) {base log asked : List Visit}
    {level : Int} {path : List Key} {st : Statement} {opening : Opening} {lines : List String}
    {s₂ : Progress} (hpath : c.graph.ExecPath entry node ws) (hnew : ¬ node.Among (statements log))
    (hst : c.graph.statement? node = some st) (ho : Opens c (.enter node level path) st opening)
    (hsymbols : s₂.symbols = s.symbols)
    (htrail : s₂.trail = asked ++ .statement node level :: s.trail) (hasked : statements asked = [])
    (hp : opening.perform c (.enter node level path) s₂ = (.ok lines, s'))
    (h : Held c entry base (c.graph.bodies ws) log s) :
    ∃ new, (∀ v ∈ new, ∃ node text, v = .line node text) ∧ Held c entry base (c.graph.bodies ws)
      ((new ++ asked ++ [.statement node level]) ++ log) s' := by
  have hsettled : Settled c log s₂.symbols.issued := hsymbols ▸ h.settled
  have hissued : s₂.symbols.Issued := hsymbols ▸ h.issued
  have hscoped : Scoped c entry (statements log) (c.graph.bodies ws) s₂ := by
    unfold Scoped
    rw [hsymbols]
    exact h.table
  obtain ⟨new, hnt, hnotes, _⟩ := Opening.perform_notes hnames ho hissued hp
  have hs := statements_entered node level log hasked hnotes.lines
  have hsub : ∀ v ∈ log, v ∈ (new ++ asked ++ [.statement node level]) ++ log := fun v hv =>
    List.mem_append_right _ hv
  have hearlier : s₂.symbols.issued <+: s'.symbols.issued :=
    (Opening.perform_related Progress.Extends.follows.toAdmits hp).issued
  refine ⟨new, hnotes.lines, ?_, ?_, ?_, ?_⟩
  · rw [hnt, htrail, h.trail]
    simp
  · rw [hs]
    exact hscoped.opens hg hnames hpath hnew hst ho hsettled hissued hp
  · refine hsettled.enter hearlier hsub hs hst fun hheads => ?_
    obtain ⟨text, rfl, hform⟩ := ho.heads hnotes hheads
    exact ⟨_, hform, node, text, .head _, rfl, rfl⟩
  · exact Opening.perform_related Progress.follows_issued.toAdmits hp hissued

end

end CartGraph
