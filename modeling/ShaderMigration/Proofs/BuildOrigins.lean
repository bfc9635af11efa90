import ShaderMigration.Proofs.ReplaySteps
import ShaderMigration.Proofs.ReferenceResolution

namespace ShaderMigration

/-- The plugs that an assignment writes down; a nested node is none yet. -/
def SpecValue.plugs : SpecValue → List Plug
  | .literal value => value.plugs
  | .spec _ => []

namespace NodeSpec

def PlugFree (spec : NodeSpec) : Prop := ∀ entry ∈ spec.attrs ++ spec.inputs, entry.2.plugs = []

instance (spec : NodeSpec) : Decidable spec.PlugFree :=
  inferInstanceAs (Decidable (∀ entry ∈ spec.attrs ++ spec.inputs, entry.2.plugs = []))

open Build

variable {schemas : Table String Schema} {primary : String} {spec : NodeSpec} {place : Nat}

theorem literal_of_mem_requestsOf {attrOf : String → Option String} {made count : Nat}
    {entries : List (String × SpecValue)} {key attr : String} {value : Value}
    (h : .write key attr value count ∈ requestsOf schemas attrOf made entries) :
    (key, .literal value) ∈ entries := by
  induction entries generalizing made with
  | nil => cases h
  | cons entry rest ih =>
    obtain ⟨name, given⟩ := entry
    rcases List.mem_cons.mp h with heq | h
    · unfold requestOf at heq
      split at heq
      next =>
        obtain ⟨rfl, _, rfl, _⟩ := Request.write.inj heq
        exact List.mem_cons_self ..
      next => cases heq
      next => cases heq
    · exact List.mem_cons_of_mem _ (ih h)

theorem PlugFree.of_write (h : spec.PlugFree) {key attr : String} {value : Value} {count : Nat}
    (hrequest : .write key attr value count ∈ spec.requests schemas primary place) :
    value.plugs = [] := by
  have hentry : (key, .literal value) ∈ spec.attrs ++ spec.inputs := by
    rcases List.mem_append.mp hrequest with hassigned | hfeed
    · rcases List.mem_append.mp hassigned with hattr | hinput
      · exact List.mem_append_left _ (literal_of_mem_requestsOf hattr)
      · exact List.mem_append_right _ (literal_of_mem_requestsOf hinput)
    · cases hspec : spec.feed <;> simp [hspec, feedRequests] at hfeed
  exact h _ hentry

end NodeSpec

namespace Build

/-- Why a node takes a value: it holds no plug, it is a connection to a node made later, or it
connects the primary input to what the reference of the node leads to. -/
def Order.Drawn (options : BuildOptions) (start : LiveScene) (specs : List NodeSpec) (place : Nat) :
    Order → Prop
  | unlisted _ => True
  | write _ attr value => value.plugs = [] ∨
      (∃ other < specs.length, place < other ∧ value = .connection ⟨start.idAt other, none⟩) ∨
      attr = options.primaryInput ∧ (∃ spec tag, specs[place]? = some spec ∧
        spec.feed = .tagged tag) ∧ ∃ source, value = .connection ⟨source, none⟩

/-- What is needed of a request for its order to be drawn so. -/
def Request.Drawn (specs : List NodeSpec) (place : Nat) : Request → Prop
  | unlisted _ => True
  | write _ _ value _ => value.plugs = []
  | link _ _ _ other => other < specs.length ∧ place < other
  | refer tag => ∃ spec, specs[place]? = some spec ∧ spec.feed = .tagged tag

section Origins

variable {options : BuildOptions} {start : LiveScene} {specs : List NodeSpec} {place : Nat}
  {done : List Move} {log : List (Nat × Call)} {before after : Building LiveScene}

theorem Request.Drawn.order {request : Request} (h : request.Drawn specs place) {node : NodeId}
    {order : Order} (horder : request.order? options start.idAt before node = some order) :
    order.Drawn options start specs place := by
  cases request with
  | unlisted id =>
    cases horder
    trivial
  | write key attr value count =>
    cases horder
    exact Or.inl h
  | link key attr child other =>
    cases horder
    exact Or.inr (Or.inl ⟨other, h.1, h.2, rfl⟩)
  | refer tag =>
    obtain ⟨spec, hspec, hfeed⟩ := h
    obtain ⟨source, _, rfl⟩ := Option.map_eq_some_iff.mp horder
    exact Or.inr (Or.inr ⟨rfl, ⟨spec, tag, hspec, hfeed⟩, source, rfl⟩)

theorem drawn_of_mem_treeScript {roots : List NodeSpec} {request : Request}
    (hplugs : ∀ spec ∈ roots.flatMap fun spec => spec.described start.scene.schemas, spec.PlugFree)
    (h : .ask place request ∈ treeScript options roots start) :
    request.Drawn (roots.flatMap fun spec => spec.described start.scene.schemas) place := by
  obtain ⟨spec, hspec, hmove⟩ := exists_spec_of_mem_treeScript rfl h
  have hrequest : request ∈ spec.requests start.scene.schemas options.primaryInput place := by
    rwa [← asksAt_moves, mem_asksAt_iff]
  cases request with
  | unlisted id => trivial
  | write key attr value count => exact (hplugs spec (List.mem_of_getElem? hspec)).of_write hrequest
  | link key attr child other =>
    obtain ⟨hlt, hchild⟩ := (laid_treeScript options roots start).ordered.of_link h
    rw [List.nil_append, makes_treeScript] at hchild
    exact ⟨(List.getElem?_eq_some_iff.mp hchild).1, hlt⟩
  | refer tag => exact ⟨spec, hspec, NodeSpec.feed_eq_of_refer hrequest⟩

/-- All orders so far are drawn from the descriptions, and so are the references that wait. -/
structure Drawn (options : BuildOptions) (start : LiveScene) (specs : List NodeSpec)
    (done : List Move) (log : List (Nat × Call)) (building : Building LiveScene) : Prop where
  orders : ∀ entry ∈ log, entry.2.order.Drawn options start specs entry.1
  waiting : ∀ entry ∈ building.waiting, ∃ place < (makes done).length,
    entry.1 = start.idAt place ∧ (Request.refer entry.2).Drawn specs place

namespace Drawn

theorem step (h : Drawn options start specs done log before) {move : Move}
    {log' : List (Nat × Call)} {total : Nat} (hfits : move.Fits (makes done))
    (hdrawn : ∀ place request, move = .ask place request → request.Drawn specs place)
    (heffect : Effect options start total log before after move log') :
    Drawn options start specs (done ++ [move]) log' after := by
  have hmade : (makes done).length ≤ (makes (done ++ [move])).length := by
    rw [makes_append, List.length_append]
    omega
  have hwaiting : after.waiting = before.waiting → ∀ entry ∈ after.waiting,
      ∃ place < (makes (done ++ [move])).length,
        entry.1 = start.idAt place ∧ (Request.refer entry.2).Drawn specs place := by
    intro hsame entry he
    obtain ⟨place, hplace, hentry⟩ := h.waiting entry (hsame ▸ he)
    exact ⟨place, by omega, hentry⟩
  cases heffect with
  | create hsame => exact ⟨h.orders, hwaiting hsame.waiting⟩
  | root hsame => exact ⟨h.orders, hwaiting hsame.waiting⟩
  | tag _ hsame _ => exact ⟨h.orders, hwaiting hsame⟩
  | @order place request order horder hsame =>
    refine ⟨fun entry he => ?_, hwaiting hsame.waiting⟩
    rcases List.mem_append.mp he with he | he
    · exact h.orders entry he
    · rw [List.mem_singleton.mp he]
      exact (hdrawn place request rfl).order horder
  | @wait place tag _ hwait =>
    refine ⟨h.orders, ?_⟩
    rcases wait_cases hwait with ⟨_, rfl⟩ | ⟨_, rfl⟩
    · intro entry he
      rcases List.mem_append.mp he with he | he
      · obtain ⟨other, hother, hentry⟩ := h.waiting entry he
        exact ⟨other, by omega, hentry⟩
      · rw [List.mem_singleton.mp he]
        exact ⟨place, Nat.lt_of_lt_of_le hfits.1 hmade, rfl, hdrawn place (.refer tag) rfl⟩
    · exact hwaiting rfl

end Drawn

/-- A reference that waited makes its order when it is answered. -/
theorem Replay.exists_drawn_of_waiting {made : List NodeSpec} (h : Replay start made log before)
    (horders : ∀ entry ∈ log, entry.2.order.Drawn options start specs entry.1)
    {references : List (NodeId × String)}
    (hwaiting : ∀ entry ∈ references, ∃ place < made.length,
      entry.1 = start.idAt place ∧ (Request.refer entry.2).Drawn specs place)
    (hrun : resolveWaiting LiveScene.host options references before = (.ok (), after)) :
    ∃ log', Replay start made log' after ∧
      ∀ entry ∈ log', entry.2.order.Drawn options start specs entry.1 := by
  induction references generalizing log before with
  | nil =>
    obtain ⟨-, rfl⟩ := pure_eq_ok_iff.mp hrun
    exact ⟨log, h, horders⟩
  | cons entry rest ih =>
    obtain ⟨node, tag⟩ := entry
    obtain ⟨place, hplace, hnode, spec, hspec, hfeed⟩ := hwaiting (node, tag) (List.mem_cons_self ..)
    dsimp only at hnode hfeed
    subst hnode
    obtain ⟨_, mid, hfirst, hrest⟩ := bind_eq_ok_iff.mp hrun
    have hlater := fun entry he => hwaiting entry (List.mem_cons_of_mem _ he)
    rcases h.answer hplace (Nat.le_refl _) hfirst with ⟨source, _, _, hmid⟩ | ⟨_, hmid, _⟩
    · refine ih hmid (fun entry he => ?_) hlater hrest
      rcases List.mem_append.mp he with he | he
      · exact horders entry he
      · rw [List.mem_singleton.mp he]
        exact Or.inr (Or.inr ⟨rfl, ⟨spec, tag, hspec, hfeed⟩, source, rfl⟩)
    · exact ih hmid horders hlater hrest

theorem total_resolveWaiting (references : List (NodeId × String)) :
    Total (resolveWaiting LiveScene.host options references) := by
  induction references with
  | nil => exact fun before => ⟨before, rfl⟩
  | cons entry rest ih =>
    refine Total.bind (fun before => ?_) ih
    unfold feedByTag
    split
    next => exact total_attempt _ _ _ before
    next => exact total_modify _ before

theorem buildRoots_error_of_buildAll {roots : List NodeSpec} {cause : HostError}
    (h : buildAll LiveScene.host options roots before = (.error cause, after)) :
    buildRoots LiveScene.host options roots before = (.error cause, after) := by
  unfold buildAll at h
  rcases bind_error_cases h with hroots | ⟨_, mid, _, hwaiting⟩
  · exact hroots
  · have htotal : Total (resolveWaiting LiveScene.host options mid.waiting) :=
      total_resolveWaiting mid.waiting
    obtain ⟨later, hlater⟩ := htotal mid
    have hget : (do
        let building ← get
        resolveWaiting LiveScene.host options building.waiting :
          BuildStep LiveScene Unit) mid = (.ok (), later) :=
      bind_eq_ok_iff.mpr ⟨mid, mid, rfl, hlater⟩
    cases (Prod.mk.inj (hget.symm.trans hwaiting)).1

end Origins

/-- However a build ends, it leaves some of the descriptions made, in order, by orders that are drawn
from them. -/
theorem exists_drawn_of_build {tree : NodeTree} {options : BuildOptions} {live after : LiveScene}
    {result : Except HostError BuildOutput}
    (hplugs : ∀ spec ∈ tree.described live.scene.schemas, spec.PlugFree)
    (hunused : live.NextUnused (tree.described live.scene.schemas).length)
    (hrun : tree.build LiveScene.host options live = (result, after)) :
    ∃ made log final, made <+: tree.described live.scene.schemas ∧ Replay live made log final ∧
      final.state = after ∧
      ∀ entry ∈ log,
        entry.2.order.Drawn options live (tree.described live.scene.schemas) entry.1 := by
  unfold NodeTree.described at *
  have hlaid := laid_treeScript options tree.roots live
  have hmakes := makes_treeScript options tree.roots live
  have hmoves : ∀ {done rest : List Move} {final : Building LiveScene},
      treeScript options tree.roots live = done ++ rest →
      runMoves options live.idAt done { state := live } = (.ok (), final) →
        ∃ log, Replay live (makes done) log final ∧
          Drawn options live (makes (treeScript options tree.roots live)) done log final := by
    intro done rest final hsplit hdone
    refine Replay.exists_log hlaid.ordered (hmakes ▸ hunused) ⟨by simp, by simp⟩ ?_ hsplit hdone
    intro done move rest log log' before after hsplit h _ hfits heffect _
    refine h.step hfits (fun place request hask => ?_) heffect
    have hmem : .ask place request ∈ treeScript options tree.roots live := by
      rw [hsplit, hask]
      simp
    rw [hmakes]
    exact drawn_of_mem_treeScript hplugs hmem
  rw [hmakes] at hmoves
  unfold NodeTree.build at hrun
  split at hrun
  next final hall =>
    obtain ⟨mid, hroots, hwaiting⟩ := buildAll_eq_ok_iff.mp hall
    rw [buildRoots_eq_runMoves hunused] at hroots
    obtain ⟨log, hmid, hdrawn⟩ := hmoves (List.append_nil _).symm hroots
    obtain ⟨log', hfinal, horders⟩ :=
      hmid.exists_drawn_of_waiting hdrawn.orders hdrawn.waiting hwaiting
    exact ⟨_, log', final, hmakes ▸ List.prefix_refl _, hfinal, (Prod.mk.inj hrun).2, horders⟩
  next cause final hall =>
    have hroots := buildRoots_error_of_buildAll hall
    rw [buildRoots_eq_runMoves hunused] at hroots
    -- the moves before the node that could not be created did all that was done
    obtain ⟨done, place, spec, rest, hsplit, hdone, _⟩ := runMoves_error hroots
    obtain ⟨log, hfinal, hdrawn⟩ := hmoves hsplit hdone
    refine ⟨_, log, final, ?_, hfinal, (Prod.mk.inj hrun).2, hdrawn.orders⟩
    rw [← hmakes, hsplit, makes_append]
    exact List.prefix_append _ _

end Build

end ShaderMigration
