import ShaderMigration.Proofs.NodeTags
import ShaderMigration.Proofs.ReferenceResolution

namespace ShaderMigration

namespace Build

variable {options : BuildOptions} {start : LiveScene} {total : Nat}

/-- The call that a request comes to when the tags lead to these nodes; none for a tag that no node
has. -/
def Request.call? (options : BuildOptions) (start : LiveScene) (total : Nat)
    (tags : Table String NodeId) : Request → Option Call
  | unlisted id => some ⟨.unlisted id, idsWith start total⟩
  | write key attr value made => some ⟨.write key attr value, idsWith start made⟩
  | link key attr _ place => some ⟨.link key attr (start.idAt place), idsWith start total⟩
  | refer tag => (tags.find? tag).map fun source =>
      ⟨.link options.primaryInput options.primaryInput source, idsWith start total⟩

def Request.leftOver? (tags : Table String NodeId) (node : NodeId) : Request → Option UnresolvedReference
  | refer tag => if tags.contains tag then none else some ⟨node, tag⟩
  | _ => none

theorem Request.leftOver?_eq_none {tags : Table String NodeId} {request : Request} {call : Call}
    (h : request.call? options start total tags = some call) (node : NodeId) :
    request.leftOver? tags node = none := by
  cases request with
  | refer tag =>
    obtain ⟨source, hsource, _⟩ := Option.map_eq_some_iff.mp h
    simp [leftOver?, Table.contains, hsource]
  | unlisted => rfl
  | write => rfl
  | link => rfl

/-- The references of the node at a place among those that wait. -/
def waitingAt (start : LiveScene) (place : Nat) (references : List (NodeId × String)) :
    List Request :=
  (references.filter fun entry => entry.1 == start.idAt place).map fun entry => .refer entry.2

@[simp] theorem waitingAt_append (place : Nat) (references references' : List (NodeId × String)) :
    waitingAt start place (references ++ references') =
      waitingAt start place references ++ waitingAt start place references' := by
  simp [waitingAt]

theorem resolve?_of_build (hscope : options.tagScope = .build) (reads : Reads)
    (output : BuildOutput) (tag : String) (consumer : NodeId) :
    resolve? options reads output tag consumer = output.tags.find? tag := by
  unfold resolve?
  rw [hscope]
  cases output.tags.find? tag <;> rfl

theorem call?_of_order? (hscope : options.tagScope = .build) {building : Building LiveScene}
    {node : NodeId} {request : Request} {order : Order}
    (h : request.order? options start.idAt building node = some order) :
    request.call? options start total building.output.tags =
      some ⟨order, request.sees start total⟩ := by
  cases request with
  | unlisted id => exact congrArg (Option.map fun order => Call.mk order _) h
  | write key attr value made => exact congrArg (Option.map fun order => Call.mk order _) h
  | link key attr child place => exact congrArg (Option.map fun order => Call.mk order _) h
  | refer tag =>
    obtain ⟨source, hsource, rfl⟩ := Option.map_eq_some_iff.mp h
    rw [resolve?_of_build hscope] at hsource
    rw [Request.call?, hsource]
    rfl

theorem mem_dropLast_append {α : Type} {item : α} {items more : List α}
    (h : item ∈ items.dropLast) : item ∈ (items ++ more).dropLast := by
  cases more with
  | nil => rwa [List.append_nil]
  | cons first rest =>
    rw [List.dropLast_append_cons]
    exact List.mem_append_left _ ((List.dropLast_sublist items).subset h)

/-- The moves so far, as they show in a building: of the requests to a node, all were made but the
reference that waits. -/
structure Recorded (options : BuildOptions) (start : LiveScene) (total : Nat) (done : List Move)
    (log : List (Nat × Call)) (building : Building LiveScene) : Prop where
  replay : Replay start (makes done) log building
  asked : ∀ place < total, ∃ asked,
    asksAt place done = asked ++ waitingAt start place building.waiting ∧
      asked.map (Request.call? options start total building.output.tags) =
        (callsAt place log).map some
  waiting : ∀ entry ∈ building.waiting, ∃ place < (makes done).length, entry.1 = start.idAt place
  tags : ∀ tag, building.output.tags.contains tag = true ↔ ∃ place, .tag place tag ∈ done
  tagged : ∀ tag source, building.output.tags.find? tag = some source →
    ∃ place, source = start.idAt place ∧ .tag place tag ∈ done
  unresolved : building.output.unresolved = []

def TagsKept (tags tags' : Table String NodeId) : Prop :=
  ∀ tag source, tags.find? tag = some source → tags'.find? tag = some source

/-- A tag is set once. -/
theorem find?_of_tagged {tags tags' : Table String NodeId} {label : String} {node : NodeId}
    (h : tags' = if tags.contains label then tags else tags.insert label node) (tag : String) :
    tags'.find? tag = (tags.find? tag).or (if tag = label then some node else none) := by
  rw [h]
  by_cases htag : tag = label
  · subst htag
    rw [if_pos rfl]
    split
    next hknown =>
      obtain ⟨source, hsource⟩ := Option.isSome_iff_exists.mp hknown
      rw [hsource, Option.some_or]
    next hnew =>
      have hnone : tags.find? tag = none := by simpa [Table.contains] using hnew
      rw [Table.find?_insert_self, hnone, Option.none_or]
  · rw [if_neg htag, Option.or_none]
    split
    next => rfl
    next => exact Table.find?_insert_of_ne _ htag _

theorem Request.call?_of_tagsKept {tags tags' : Table String NodeId} (h : TagsKept tags tags')
    {request : Request} {call : Call}
    (hcall : request.call? options start total tags = some call) :
    request.call? options start total tags' = some call := by
  cases request with
  | refer tag =>
    obtain ⟨source, hsource, rfl⟩ := Option.map_eq_some_iff.mp hcall
    rw [call?, h tag source hsource]
    rfl
  | unlisted => exact hcall
  | write => exact hcall
  | link => exact hcall

theorem map_call?_of_tagsKept {tags tags' : Table String NodeId} (h : TagsKept tags tags')
    {asked : List Request} {calls : List Call}
    (hasked : asked.map (Request.call? options start total tags) = calls.map some) :
    asked.map (Request.call? options start total tags') = calls.map some := by
  rw [← hasked]
  refine List.map_congr_left fun request hrequest => ?_
  have hmem : request.call? options start total tags ∈ calls.map some :=
    hasked ▸ List.mem_map_of_mem hrequest
  obtain ⟨call, _, hcall⟩ := List.mem_map.mp hmem
  rw [← hcall, Request.call?_of_tagsKept h hcall.symm]

namespace Recorded

variable {done : List Move} {log : List (Nat × Call)} {before after : Building LiveScene}

theorem initial (start : LiveScene) : Recorded options start total [] [] { state := start } where
  replay := .initial start
  asked := fun _ _ => ⟨[], rfl, rfl⟩
  waiting := by simp
  tags := by
    intro tag
    simp [Table.contains, show (BuildOutput.tags {}).find? tag = none from rfl]
  tagged := fun _ _ h => nomatch h
  unresolved := rfl

/-- A move that sets no tag counts by what was asked for and what waits. -/
theorem of_tags_same (h : Recorded options start total done log before) {move : Move}
    {log' : List (Nat × Call)} (hreplay : Replay start (makes (done ++ [move])) log' after)
    (hmove : ∀ place tag, move ≠ .tag place tag) (htags : after.output.tags = before.output.tags)
    (hunresolved : after.output.unresolved = before.output.unresolved)
    (hasked : ∀ place < total, ∃ asked,
      asksAt place (done ++ [move]) = asked ++ waitingAt start place after.waiting ∧
        asked.map (Request.call? options start total before.output.tags) =
          (callsAt place log').map some)
    (hwaiting : ∀ entry ∈ after.waiting, entry ∈ before.waiting ∨
      ∃ place < (makes done).length, entry.1 = start.idAt place) :
    Recorded options start total (done ++ [move]) log' after := by
  have hmem : ∀ place tag, .tag place tag ∈ done ++ [move] ↔ .tag place tag ∈ done := by
    intro place tag
    rw [List.mem_append, List.mem_singleton, or_iff_left (Ne.symm (hmove place tag))]
  refine ⟨hreplay, htags ▸ hasked, ?_, ?_, ?_, hunresolved.trans h.unresolved⟩
  · intro entry he
    have hold : ∃ place < (makes done).length, entry.1 = start.idAt place := by
      rcases hwaiting entry he with hold | hnew
      · exact h.waiting entry hold
      · exact hnew
    obtain ⟨place, hplace, heq⟩ := hold
    exact ⟨place, by rw [makes_append, List.length_append]; omega, heq⟩
  · intro tag
    rw [htags, h.tags]
    simp only [hmem]
  · intro tag source hsource
    rw [htags] at hsource
    simp only [hmem]
    exact h.tagged tag source hsource

theorem of_same (h : Recorded options start total done log before) {move : Move}
    (hreplay : Replay start (makes (done ++ [move])) log after) (hsame : SameRecord before after)
    (hmove : ∀ place tag, move ≠ .tag place tag) (hasks : ∀ place, asksAt place [move] = []) :
    Recorded options start total (done ++ [move]) log after := by
  refine h.of_tags_same hreplay hmove hsame.tags hsame.unresolved ?_ ?_
  · intro place hplace
    rw [asksAt_append, hasks, List.append_nil, hsame.waiting]
    exact h.asked place hplace
  · rw [hsame.waiting]
    exact fun entry he => Or.inl he

/-- A node with a reference that waits is asked for nothing more. -/
theorem waitingAt_eq_nil (h : Recorded options start total done log before) {place : Nat}
    (hplace : place < total)
    (hlast : ∀ tag, .refer tag ∉ asksAt place done) : waitingAt start place before.waiting = [] := by
  obtain ⟨asked, hasks, _⟩ := h.asked place hplace
  rw [List.eq_nil_iff_forall_not_mem]
  intro request hrequest
  have hmem : request ∈ asksAt place done := hasks ▸ List.mem_append_right _ hrequest
  obtain ⟨entry, _, rfl⟩ := List.mem_map.mp hrequest
  exact hlast entry.2 hmem

theorem ask_order (h : Recorded options start total done log before)
    (hscope : options.tagScope = .build) {place : Nat} {request : Request} {order : Order}
    (hplace : place < total) (hlast : ∀ tag, .refer tag ∉ asksAt place done)
    (horder : request.order? options start.idAt before (start.idAt place) = some order)
    (hreplay : Replay start (makes (done ++ [.ask place request]))
      (log ++ [(place, ⟨order, request.sees start total⟩)]) after)
    (hsame : SameRecord before after) :
    Recorded options start total (done ++ [.ask place request])
      (log ++ [(place, ⟨order, request.sees start total⟩)]) after := by
  refine h.of_tags_same hreplay (by simp) hsame.tags hsame.unresolved ?_ ?_
  · intro other hother
    rw [hsame.waiting, asksAt_append, callsAt_append]
    obtain ⟨asked, hasks, hcalls⟩ := h.asked other hother
    by_cases heq : other = place
    · -- a reference is the last request of its node, so none of this node waits
      subst heq
      rw [h.waitingAt_eq_nil hplace hlast] at hasks ⊢
      rw [List.append_nil] at hasks
      refine ⟨asked ++ [request], ?_, ?_⟩
      · rw [hasks]
        simp [asksAt]
      · rw [List.map_append, hcalls]
        simp [callsAt, call?_of_order? hscope horder]
    · refine ⟨asked, ?_, ?_⟩
      · simpa [asksAt, Ne.symm heq] using hasks
      · simpa [callsAt, Ne.symm heq] using hcalls
  · rw [hsame.waiting]
    exact fun entry he => Or.inl he

theorem ask_wait (h : Recorded options start total done log before) (hunused : start.NextUnused total)
    {place : Nat} {tag : String} (hplace : place < (makes done).length)
    (hmade : (makes done).length ≤ total)
    (hreplay : Replay start (makes (done ++ [.ask place (.refer tag)])) log after)
    (hafter : after = { before with waiting := before.waiting ++ [(start.idAt place, tag)] }) :
    Recorded options start total (done ++ [.ask place (.refer tag)]) log after := by
  subst hafter
  refine h.of_tags_same hreplay (by simp) rfl rfl ?_ ?_
  · intro other hother
    obtain ⟨asked, hasks, hcalls⟩ := h.asked other hother
    refine ⟨asked, ?_, hcalls⟩
    rw [asksAt_append, waitingAt_append, hasks, List.append_assoc]
    congr 2
    by_cases heq : other = place
    · simp [asksAt, waitingAt, heq]
    · have hne : start.idAt place ≠ start.idAt other := fun hids =>
        heq (hunused.idAt_inj hother (by omega) hids.symm)
      simp [asksAt, waitingAt, Ne.symm heq, hne]
  · intro entry he
    rcases List.mem_append.mp he with he | he
    · exact Or.inl he
    · exact Or.inr ⟨place, hplace, congrArg Prod.fst (List.mem_singleton.mp he)⟩

theorem tag (h : Recorded options start total done log before) {place : Nat} {label : String}
    (hreplay : Replay start (makes (done ++ [.tag place label])) log after)
    (htags : after.output.tags = if before.output.tags.contains label then before.output.tags
      else before.output.tags.insert label (start.idAt place))
    (hwaiting : after.waiting = before.waiting)
    (hunresolved : after.output.unresolved = before.output.unresolved) :
    Recorded options start total (done ++ [.tag place label]) log after := by
  have hfind := find?_of_tagged htags
  refine ⟨hreplay, ?_, ?_, ?_, ?_, hunresolved.trans h.unresolved⟩
  · intro other hother
    obtain ⟨asked, hasks, hcalls⟩ := h.asked other hother
    refine ⟨asked, ?_, map_call?_of_tagsKept ?_ hcalls⟩
    · simpa [asksAt, hwaiting] using hasks
    · intro tag source hsource
      rw [hfind, hsource, Option.some_or]
  · intro entry he
    rw [hwaiting] at he
    obtain ⟨other, hother, heq⟩ := h.waiting entry he
    exact ⟨other, by rw [makes_append, List.length_append]; omega, heq⟩
  · intro tag
    simp only [List.mem_append, List.mem_singleton, exists_or, ← h.tags, Table.contains, hfind]
    by_cases htag : tag = label <;> simp [htag]
  · intro tag source hsource
    rw [hfind, Option.or_eq_some_iff] at hsource
    simp only [List.mem_append, List.mem_singleton]
    rcases hsource with hold | ⟨_, hnew⟩
    · obtain ⟨other, hother, hmem⟩ := h.tagged tag source hold
      exact ⟨other, hother, Or.inl hmem⟩
    · obtain ⟨rfl, heq⟩ := Option.ite_none_right_eq_some.mp hnew
      exact ⟨place, (Option.some.inj heq).symm, Or.inr rfl⟩

theorem step (h : Recorded options start total done log before) (hoptions : options.Deferring)
    (hunused : start.NextUnused total) {move : Move} {log' : List (Nat × Call)}
    (hfits : move.Fits (makes done)) (hmade : (makes done).length ≤ total)
    (hlast : ∀ place tag, .refer tag ∉ (asksAt place (done ++ [move])).dropLast)
    (hreplay : Replay start (makes (done ++ [move])) log' after)
    (heffect : Effect options start total log before after move log') :
    Recorded options start total (done ++ [move]) log' after := by
  cases heffect with
  | create hsame => exact h.of_same hreplay hsame (by simp) fun _ => rfl
  | root hsame => exact h.of_same hreplay hsame (by simp) fun _ => rfl
  | tag htags hwaiting hunresolved => exact h.tag hreplay htags hwaiting hunresolved
  | @order place request order horder hsame =>
    refine h.ask_order hoptions.scope (Nat.lt_of_lt_of_le hfits.1 hmade) ?_ horder hreplay hsame
    intro tag hmem
    refine hlast place tag ?_
    have hasks : asksAt place (done ++ [.ask place request]) = asksAt place done ++ [request] := by
      simp [asksAt]
    rwa [hasks, List.dropLast_concat]
  | wait _ hwait =>
    rcases wait_cases hwait with ⟨_, hafter⟩ | ⟨hdeferred, _⟩
    · exact h.ask_wait hunused hfits.1 hmade hreplay hafter
    · rw [hoptions.deferred] at hdeferred
      cases hdeferred

theorem run (hoptions : options.Deferring) {moves : List Move} (hordered : Ordered [] moves)
    (hunused : start.NextUnused (makes moves).length)
    (hlast : ∀ place tag, .refer tag ∉ (asksAt place moves).dropLast)
    (hrun : runMoves options start.idAt moves { state := start } = (.ok (), after)) :
    ∃ log, Recorded options start (makes moves).length moves log after := by
  have hlog := Replay.exists_log hordered hunused
    (P := Recorded options start (makes moves).length) (initial start) ?_
    (List.append_nil moves).symm hrun
  · obtain ⟨log, _, h⟩ := hlog
    exact ⟨log, h⟩
  · intro done move rest log log' before after hsplit h _ hfits heffect hreplay
    have hmade : (makes done).length ≤ (makes moves).length := by
      rw [hsplit, makes_append, List.length_append]
      omega
    refine h.step hoptions hunused hfits hmade (fun place tag hmem => hlast place tag ?_) hreplay
      heffect
    have hsplit' : moves = done ++ [move] ++ rest := by rw [hsplit, List.append_assoc]; rfl
    rw [hsplit', asksAt_append]
    exact mem_dropLast_append hmem

end Recorded

end Build

end ShaderMigration
