import CartGraph.Proofs.Emit.Order

/-! # The blocks that the walk stands in

A branch of a condition and the body of a loop are blocks of their own; whatever else follows a
statement stays in its block. So the blocks around a node are told by the connections that lead to
it. A task is ready when its place is known, when nothing that it may visit was visited before, and
when everything above it was. -/
namespace CartGraph

namespace Graph

/-- The branches and loop bodies that a path runs through, by node and exec output. -/
def bodies (g : Graph) (ws : List Connection) : List Place :=
  (ws.filter g.opensBody).map Connection.source

/-- An exec output that leads into a block of its own. -/
def Body (g : Graph) (node : Key) (pin : String) : Prop :=
  g.statement? node = some .branch ∨ g.statement? node = some .loop ∧ pin = "loop"

theorem opensBody_iff {g : Graph} {w : Connection} {node : Key} {pin : String}
    (hs : w.source = placeOf node pin) : g.opensBody w = true ↔ g.Body node pin := by
  have hnode : g.statement? w.sourceNode = g.statement? node :=
    statement?_congr (congrArg Prod.fst hs)
  have hpin : w.sourcePin.alike "loop" = true ↔ pin = "loop" := by
    have halike : w.sourcePin.alike "loop" = decide (w.sourcePin.canonical = Key.canonical "loop") :=
      rfl
    have hk : w.sourcePin.canonical = Key.text pin := congrArg Prod.snd hs
    rw [halike, hk, decide_eq_true_iff]
    exact Key.text.injEq .. ▸ Iff.rfl
  unfold opensBody Body
  rw [hnode]
  cases hst : g.statement? node with
  | none => simp
  | some st => cases st <;> simp [hpin]

theorem mem_bodies {g : Graph} {ws : List Connection} {b : Place} :
    b ∈ g.bodies ws ↔ ∃ w ∈ ws, g.opensBody w = true ∧ w.source = b := by
  unfold bodies
  rw [List.mem_map]
  constructor
  · rintro ⟨w, hw, rfl⟩
    exact ⟨w, List.mem_of_mem_filter hw, List.of_mem_filter hw, rfl⟩
  · rintro ⟨w, hw, hb, rfl⟩
    exact ⟨w, List.mem_filter.mpr ⟨hw, hb⟩, rfl⟩

theorem bodies_append (g : Graph) (ws : List Connection) (w : Connection) :
    g.bodies (ws ++ [w]) = g.bodies ws ++ if g.opensBody w then [w.source] else [] := by
  unfold bodies
  rw [List.filter_append, List.map_append]
  cases h : g.opensBody w <;> simp [h]

end Graph

section

variable {c : Compilation} {entry : Key} {site : Site} {ws path : List Connection}

/-- No block that a node opens lies on the path to it. -/
theorem Site.Stands.not_mem_bodies (hg : Loaded c.graph) (h : site.Stands c.graph entry ws)
    (pin : Key) : placeOf site.node pin ∉ c.graph.bodies ws := by
  intro hm
  obtain ⟨w, hw, _, hs⟩ := Graph.mem_bodies.mp hm
  exact h.path.not_leaving hg hw (congrArg Prod.fst hs)

/-- A path that runs through a block of a site goes on from the site by the output of the
block. -/
theorem Site.Stands.leads (hg : Loaded c.graph) (h : site.Stands c.graph entry ws) {pin : String}
    {m : Key} (hpath : c.graph.ExecPath entry m path)
    (hb : placeOf site.node pin ∈ c.graph.bodies path) : site.Leads ws pin path := by
  obtain ⟨w, hw, _, hs⟩ := Graph.mem_bodies.mp hb
  obtain ⟨us, vs, rfl⟩ := List.append_of_mem hw
  have hus : us = ws := Graph.ExecPath.unique hg
    ((hpath.before rfl).congr (congrArg Prod.fst hs)) h.path
  subst hus
  exact ⟨w, vs, hs, rfl⟩

theorem Site.Leads.mem_bodies {pin : String} (h : site.Leads ws pin path)
    (hb : c.graph.Body site.node pin) : placeOf site.node pin ∈ c.graph.bodies path := by
  obtain ⟨w, us, hs, rfl⟩ := h
  exact Graph.mem_bodies.mpr ⟨w, by simp, (Graph.opensBody_iff hs).mpr hb, hs⟩

/-! ## Tasks that are ready -/

/-- A part belongs to the statement of its site. -/
def Part.Fits (c : Compilation) (site : Site) : Part → Prop
  | .line _ => True
  | .follow pin => ¬ c.graph.Body site.node pin
  | .block _ _ => c.graph.statement? site.node = some .branch
  | .loop index => c.graph.statement? site.node = some .loop ∧
    c.nameProperty site.node "index" "i" = .ok index

def Task.Fits (c : Compilation) : Task → Prop
  | .chain _ _ _ => True
  | .parts site ps => ∀ p ∈ ps, p.Fits c site
  | .part site p => p.Fits c site
  | .body site pin _ => c.graph.Body site.node pin

def Task.site? : Task → Option Site
  | .chain _ _ _ => none
  | .parts site _ => some site
  | .part site _ => some site
  | .body site _ _ => some site

def Key.Among (n : Key) (seen : List Key) : Prop := n.canonical ∈ seen.map Key.canonical

structure Task.Ready (c : Compilation) (entry : Key) (ws : List Connection) (seen : List Key)
    (task : Task) : Prop where
  stands : task.Stands c.graph entry ws
  fresh : task.Fresh c.graph entry ws seen
  fits : task.Fits c
  above : ∀ w ∈ ws, w.sourceNode.Among seen
  here : ∀ site ∈ task.site?, site.node.Among seen

theorem Key.Among.mono {n : Key} {seen : List Key} (h : n.Among seen) (more : List Key) :
    n.Among (more ++ seen) := by
  unfold Among
  rw [List.map_append]
  exact List.mem_append_right _ h

theorem Key.Among.congr {m n : Key} {seen : List Key} (h : m.Among seen)
    (hk : m.canonical = n.canonical) : n.Among seen := by
  unfold Among at *
  exact hk ▸ h

/-- What a statement leaves to do belongs to it. -/
theorem Opens.fits {st : Statement} {opening : Opening}
    (hst : c.graph.statement? site.node = some st) (ho : Opens c site st opening) :
    ∀ p ∈ opening.parts, p.Fits c site := by
  have flat {pin : String} (hb : st ≠ .branch) (hl : st ≠ .loop ∨ pin ≠ "loop") :
      (Part.follow pin).Fits c site := by
    rintro (h | ⟨h, hpin⟩)
    · exact hb (Option.some.inj (hst.symm.trans h))
    · exact hl.elim (fun hl => hl (Option.some.inj (hst.symm.trans h))) fun hl => hl hpin
  cases ho with
  | branch =>
    simp only [Opening.parts, Site.branchParts]
    split <;> simpa [Part.Fits] using hst
  | loop hi =>
    have hrest : (Part.follow "completed").Fits c site := flat (by decide) (.inr (by decide))
    simpa [Opening.parts] using ⟨⟨hst, hi⟩, trivial, hrest⟩
  | sequence =>
    intro p hp
    obtain ⟨pin, _, hp⟩ := List.mem_flatMap.mp hp
    rcases List.mem_pair.mp hp with rfl | rfl
    · trivial
    · exact flat (by decide) (.inl (by decide))
  | _ => simpa [Opening.parts] using flat (by simp) (.inl (by simp))

namespace Task.Ready

variable {seen : List Key}

/-- A function is ready before anything of it is visited. -/
theorem start (c : Compilation) (entry : Key) (level : Int) :
    (Task.chain entry level []).Ready c entry [] [] where
  stands := fun _ => ⟨.start rfl, .head _⟩
  fresh := fun _ hm => nomatch hm
  fits := trivial
  above := fun _ hw => nomatch hw
  here := fun _ hs => nomatch hs

theorem enter (hg : Loaded c.graph) {node : Key} {level : Int} {p : List Key} {st : Statement}
    {s s₁ : Progress} {opening : Opening}
    (h : (Task.chain node level p).Ready c entry ws seen)
    (enters : Enters c node level p st s s₁) (ho : Opens c (.enter node level p) st opening) :
    (Task.parts (.enter node level p) opening.parts).Ready c entry ws (node :: seen) := by
  obtain ⟨hpath, hentry⟩ := h.stands enters.fresh
  exact {
    stands := ⟨⟨hpath, hentry⟩, ho.pins_nodup hg enters.statement⟩
    fresh := h.fresh.enter hg hpath opening.parts
    fits := ho.fits enters.statement
    above := fun w hw => (h.above w hw).mono [node]
    here := fun _ hs => Option.some.inj hs ▸ List.mem_cons_self }

theorem head {part : Part} {rest : List Part}
    (h : (Task.parts site (part :: rest)).Ready c entry ws seen) :
    (Task.part site part).Ready c entry ws seen where
  stands := h.stands.1
  fresh := h.fresh.head
  fits := h.fits part (.head _)
  above := h.above
  here := h.here

theorem tail (hg : Loaded c.graph) {part : Part} {rest : List Part} {first : List Key}
    {r : Except Error (List String)}
    (h : (Task.parts site (part :: rest)).Ready c entry ws seen)
    (hfirst : (Task.part site part).Visits c.graph entry ws r first) :
    (Task.parts site rest).Ready c entry ws (first ++ seen) where
  stands := ⟨h.stands.1, h.stands.2.sublist ((List.sublist_cons_self part rest).filterMap Part.pin?)⟩
  fresh := h.fresh.tail hg h.stands.2 hfirst.placed
  fits := fun p hp => h.fits p (.tail _ hp)
  above := fun w hw => (h.above w hw).mono first
  here := fun s hs => (h.here s hs).mono first

theorem block {pin comment : String} (h : (Task.part site (.block pin comment)).Ready c entry ws seen) :
    (Task.body site pin comment).Ready c entry ws seen where
  stands := h.stands
  fresh := fun m hm path hp hc => h.fresh m hm path hp ⟨pin, rfl, hc⟩
  fits := .inl h.fits
  above := h.above
  here := h.here

theorem loop {index comment : String} (h : (Task.part site (.loop index)).Ready c entry ws seen) :
    (Task.body site "loop" comment).Ready c entry ws seen where
  stands := h.stands
  fresh := fun m hm path hp hc => h.fresh m hm path hp ⟨"loop", rfl, hc⟩
  fits := .inr ⟨h.fits.1, rfl⟩
  above := h.above
  here := h.here

/-- The step from a site to the node that an exec output leads to. -/
theorem hop (hg : Loaded c.graph) {pin : String} {target : Key} {level : Int}
    (hsite : site.Stands c.graph entry ws) (hhere : site.node.Among seen)
    (habove : ∀ w ∈ ws, w.sourceNode.Among seen)
    (hfresh : ∀ m ∈ seen, ∀ path, c.graph.ExecPath entry m path → ¬ site.Leads ws pin path)
    (ht : c.graph.execTargets site.node pin = [target]) :
    ∃ w, w.source = placeOf site.node pin ∧
      (Task.chain target level site.path).Ready c entry (ws ++ [w]) seen := by
  obtain ⟨w, _, _, hs, _, harrives⟩ := hsite.hop hg ht
  refine ⟨w, hs, {
    stands := harrives
    fresh := fun m hm path hp hc => hfresh m hm path hp (Site.leads_of_initial hs hc)
    fits := trivial
    above := fun v hv => ?_
    here := fun _ hs => nomatch hs }⟩
  rcases List.mem_append.mp hv with hv | hv
  · exact habove v hv
  · rw [List.mem_singleton.mp hv]
    exact hhere.congr (congrArg Prod.fst hs).symm

/-- What follows a statement outside of blocks stands in the block of the statement. -/
theorem follow (hg : Loaded c.graph) {pin : String} {target : Key}
    (h : (Task.part site (.follow pin)).Ready c entry ws seen)
    (ht : c.graph.execTargets site.node pin = [target]) :
    ∃ w, w.source = placeOf site.node pin ∧ c.graph.bodies (ws ++ [w]) = c.graph.bodies ws ∧
      (Task.chain target site.level site.path).Ready c entry (ws ++ [w]) seen := by
  obtain ⟨w, hs, hr⟩ := hop hg h.stands (h.here site rfl) h.above
    (fun m hm path hp hl => h.fresh m hm path hp ⟨pin, rfl, hl⟩) ht
  have hflat : c.graph.opensBody w = false :=
    Bool.eq_false_iff.mpr fun hb => h.fits ((Graph.opensBody_iff hs).mp hb)
  refine ⟨w, hs, ?_, hr⟩
  rw [Graph.bodies_append, hflat]
  exact List.append_nil _

/-- The chain of a block stands in the block, inside those of the statement. -/
theorem body (hg : Loaded c.graph) {pin comment : String} {target : Key}
    (h : (Task.body site pin comment).Ready c entry ws seen)
    (ht : c.graph.execTargets site.node pin = [target]) :
    ∃ w, w.source = placeOf site.node pin ∧
      c.graph.bodies (ws ++ [w]) = c.graph.bodies ws ++ [placeOf site.node pin] ∧
      (Task.chain target (site.level + 1) site.path).Ready c entry (ws ++ [w]) seen := by
  obtain ⟨w, hs, hr⟩ := hop hg h.stands (h.here site rfl) h.above h.fresh ht
  refine ⟨w, hs, ?_, hr⟩
  rw [Graph.bodies_append, (Graph.opensBody_iff hs).mpr h.fits, hs]
  rfl

end Task.Ready

end

end CartGraph
