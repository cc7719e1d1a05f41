import CartGraph.Proofs.Emit.Order

/-! # Statements that were emitted

An entry of the log tells of a statement that was entered. If the walk answers, the statement was
read and opened right then, and what opened it stands among the lines of the walk. -/
namespace CartGraph

structure Progress.Noted (s s' : Progress) (v : Visit) (before : List Visit) : Prop where
  old : s.trail <:+ before
  new : v :: before <:+ s'.trail

namespace Progress.Noted

variable {s s₁ s' : Progress} {v : Visit} {before : List Visit}

/-- What was noted was noted before a state in between, or after it. -/
theorem split (h : s.Noted s' v before) (hs : s₁.trail <:+ s'.trail) :
    s.Noted s₁ v before ∨ s₁.Noted s' v before := by
  rcases List.suffix_or_suffix_of_suffix h.new hs with hnew | hold
  · exact .inl ⟨h.old, hnew⟩
  · rcases List.suffix_cons_iff.mp hold with heq | hold
    · exact .inl ⟨h.old, heq ▸ List.suffix_rfl⟩
    · exact .inr ⟨hold, h.new⟩

theorem congr {s₂ s₃ : Progress} (h : s.Noted s' v before) (hs : s₂.trail = s.trail)
    (hs' : s₃.trail = s'.trail) : s₂.Noted s₃ v before :=
  ⟨hs ▸ h.old, hs' ▸ h.new⟩

/-- A single visit that was noted is that one. -/
theorem eq_of_cons {w : Visit} (h : s.Noted s' v before) (hs : s'.trail = w :: s.trail) :
    v = w ∧ before = s.trail := by
  have hnew := h.new
  rw [hs] at hnew
  rcases List.suffix_cons_iff.mp hnew with heq | hnew
  · cases heq
    exact ⟨rfl, rfl⟩
  · have hle := (hnew.trans h.old).length_le
    rw [List.length_cons] at hle
    omega

/-- A statement is not noted where the statements stay the same. -/
theorem statements_ne {node : Key} {level : Int} (h : s.Noted s' (.statement node level) before) :
    statements s'.trail ≠ statements s.trail := by
  intro heq
  have hnew : (statements (.statement node level :: before)).length ≤
      (statements s'.trail).length := (h.new.filterMap Visit.statement?).length_le
  have hold : (statements s.trail).length ≤ (statements before).length :=
    (h.old.filterMap Visit.statement?).length_le
  rw [show statements (.statement node level :: before) = node :: statements before from rfl,
    List.length_cons, heq] at hnew
  omega

end Progress.Noted

/-- A statement that was entered, read and opened. What opened it stands among some lines, and all
this was noted. -/
inductive Opened (c : Compilation) (node : Key) (level : Int) (before : List Visit)
    (lines : List String) (s' : Progress) : Prop
  | intro {path : List Key} {st : Statement} {s₁ s₂ s₃ : Progress} {opening : Opening}
    {first : List String} (statement : c.graph.statement? node = some st)
    (trail : s₁.trail = .statement node level :: before)
    (gather : st.gather c (c.evaluate node) (.enter node level path) s₁ = (.ok opening, s₂))
    (perform : opening.perform c (.enter node level path) s₂ = (.ok first, s₃))
    (stands : first <:+: lines) (noted : s₃.trail <:+ s'.trail)

namespace Opened

variable {c : Compilation} {node : Key} {level : Int} {before : List Visit}
  {lines lines' : List String} {s s' : Progress}

theorem mono (h : Opened c node level before lines s) (hlines : lines <:+: lines')
    (hs : s.trail <:+ s'.trail) : Opened c node level before lines' s' := by
  obtain ⟨statement, trail, gather, perform, stands, noted⟩ := h
  exact ⟨statement, trail, gather, perform, stands.trans hlines, noted.trans hs⟩

theorem of_first {first more : List String} (h : Opened c node level before first s)
    (hs : s.trail <:+ s'.trail) : Opened c node level before (first ++ more) s' :=
  h.mono (List.prefix_append ..).isInfix hs

theorem of_rest {first more : List String} (h : Opened c node level before more s) :
    Opened c node level before (first ++ more) s :=
  h.mono (List.suffix_append ..).isInfix List.suffix_rfl

end Opened

variable {c : Compilation} (h : Represented c.graph)
include h

theorem Enters.opened {node node' : Key} {level level' : Int} {path : List Key} {st : Statement}
    {s s₁ s₂ s₃ : Progress} {opening : Opening} {first : List String} {before : List Visit}
    (enters : Enters c node level path st s s₁)
    (hg : st.gather c (c.evaluate node) (.enter node level path) s₁ = (.ok opening, s₂))
    (hp : opening.perform c (.enter node level path) s₂ = (.ok first, s₃))
    (hn : s.Noted s₃ (.statement node' level') before) :
    Opened c node' level' before first s₃ := by
  have hsame : statements s₃.trail = statements s₁.trail := by
    have hread := statements_quiet
      (Statement.gather_reads h c.asks_any enters.statement (.enter node level path)) s₁
    rw [hg] at hread
    exact (Opening.perform_related statements_admits hp).trans hread
  have hkept : s₁.trail <:+ s₃.trail := by
    obtain ⟨asked, ht, _⟩ :=
      Statement.gather_reads h c.asks_any enters.statement (.enter node level path) s₁
    rw [hg] at ht
    exact (ht ▸ List.suffix_append asked s₁.trail).trans
      (Opening.perform_related Progress.Extends.follows.toAdmits hp).trail
  rcases hn.split hkept with hn | hn
  · obtain ⟨hv, hbefore⟩ := hn.eq_of_cons enters.trail
    cases hv
    subst hbefore
    exact ⟨enters.statement, enters.trail, hg, hp, List.infix_rfl, List.suffix_rfl⟩
  · exact absurd hsame hn.statements_ne

/-- Every statement that a walk noted was opened, and what opened it is among the lines. -/
theorem Runs.opened {task : Task} {s : Progress} {out : Outcome} (run : Runs c task s out)
    {lines : List String} (hok : out.1 = .ok lines) {node : Key} {level : Int}
    {before : List Visit} (hn : s.Noted out.2 (.statement node level) before) :
    Opened c node level before lines out.2 := by
  -- a line of its own and a comment note no statement
  have written {site : Site} {at' : Int} {text : String} {p : Progress}
      (hn : p.Noted (site.written c at' text p).2 (.statement node level) before) : False :=
    hn.statements_ne (site.written_within (statements_admits.forNode _) c at' text p)
  have commented {site : Site} {comment : String} {out : Outcome} {s : Progress}
      {lines : List String} (hok : (site.commented c comment out).1 = .ok lines)
      (hn : s.Noted (site.commented c comment out).2 (.statement node level) before)
      (ho : ∀ lines, out.1 = .ok lines → s.Noted out.2 (.statement node level) before →
        Opened c node level before lines out.2) :
      Opened c node level before lines (site.commented c comment out).2 := by
    rcases out with ⟨e | _ | ⟨line, more⟩, p⟩
    · cases hok
    · have hkept := (site.commented_within (Progress.Extends.follows.toAdmits.forNode _) c comment
        (.ok []) p).trail
      rcases hn.split hkept with hn | hn
      · exact (ho [] rfl hn).mono (List.nil_infix ..) hkept
      · exact (written hn).elim
    · cases hok
      exact ho _ rfl hn
  induction run generalizing lines with
  | refused | unread | unopened | stop => cases hok
  | entered enters hg hp run ih =>
    obtain ⟨more, hmore, rfl⟩ := Outcome.after_ok_eq hok
    rcases hn.split (run.extends h).trail with hn | hn
    · exact (enters.opened h hg hp hn).of_first (run.extends h).trail
    · exact (ih hmore hn).of_rest
  | done => exact (hn.statements_ne rfl).elim
  | next first run ihf ih =>
    obtain ⟨more, hmore, rfl⟩ := Outcome.after_ok_eq hok
    rcases hn.split (run.extends h).trail with hn | hn
    · exact (ihf rfl hn).of_first (run.extends h).trail
    · exact (ih hmore hn).of_rest
  | line => exact (written hn).elim
  | idle => exact (hn.statements_ne rfl).elim
  | follow _ _ ih => exact ih hok hn
  | block _ ih => exact ih hok hn
  | loop _ _ ih => exact (ih hok (hn.congr rfl rfl)).mono List.infix_rfl List.suffix_rfl
  | blank => exact commented hok hn fun _ _ hn => (hn.statements_ne rfl).elim
  | filled _ _ ih =>
    exact commented hok hn fun _ hok hn =>
      (ih hok (hn.congr rfl rfl)).mono List.infix_rfl List.suffix_rfl

end CartGraph
