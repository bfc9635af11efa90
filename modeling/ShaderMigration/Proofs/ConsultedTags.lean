import ShaderMigration.Proofs.AttributeViews
import ShaderMigration.Proofs.BuiltNetwork

namespace ShaderMigration

namespace Build

def issues (tag : String) (moves : List Move) : Bool :=
  moves.any fun
    | .tag _ label => label == tag
    | _ => false

/-- The node that a reference leads to when these moves were done before it. -/
def leadsTo? (options : BuildOptions) (start : LiveScene) (earlier : List Move)
    (tags : Table String NodeId) (tag : String) : Option NodeId :=
  if issues tag earlier then tags.find? tag
  else (start.scene.carrier? options.tagKey tag).or (tags.find? tag)

variable {options : BuildOptions} {start : LiveScene} {total place : Nat} {tag : String}
  {done earlier : List Move} {move : Move} {log log' : List (Nat × Call)}
  {before after : Building LiveScene}

theorem issues_iff : issues tag done = true ↔ ∃ place, .tag place tag ∈ done := by
  unfold issues
  rw [List.any_eq_true]
  constructor
  · intro h
    obtain ⟨move, hmove, htag⟩ := h
    cases move with
    | tag place label => exact ⟨place, beq_iff_eq.mp htag ▸ hmove⟩
    | create => cases htag
    | ask => cases htag
    | root => cases htag
  · intro h
    obtain ⟨place, hmove⟩ := h
    exact ⟨_, hmove, beq_self_eq_true tag⟩

theorem issues_concat (htag : ∀ place label, move ≠ .tag place label) :
    issues tag (done ++ [move]) = issues tag done := by
  cases move with
  | tag place label => exact absurd rfl (htag place label)
  | create => simp [issues]
  | ask => simp [issues]
  | root => simp [issues]

theorem leadsTo?_of_tagsKept {tags tags' : Table String NodeId} (h : TagsKept tags tags')
    {source : NodeId} (hsource : leadsTo? options start earlier tags tag = some source) :
    leadsTo? options start earlier tags' tag = some source := by
  unfold leadsTo? at *
  split
  next hissued =>
    rw [if_pos hissued] at hsource
    exact h tag source hsource
  next hnot =>
    rw [if_neg hnot] at hsource
    rcases Option.or_eq_some_iff.mp hsource with hold | ⟨hnone, hnew⟩
    · rw [hold, Option.some_or]
    · rw [hnone, Option.none_or]
      exact h tag source hnew

/-- The tags are those that were set, each by the node of one that set it. -/
structure Named (start : LiveScene) (done : List Move) (tags : Table String NodeId) : Prop where
  contains_eq : ∀ tag, tags.contains tag = issues tag done
  source : ∀ tag source, tags.find? tag = some source →
    ∃ place, source = start.idAt place ∧ .tag place tag ∈ done

namespace Named

theorem initial (start : LiveScene) : Named start [] {} where
  contains_eq := fun _ => rfl
  source := fun _ _ h => nomatch h

theorem of_same {tags : Table String NodeId} (h : Named start done tags)
    (hmove : ∀ place label, move ≠ .tag place label) : Named start (done ++ [move]) tags where
  contains_eq := fun tag => (h.contains_eq tag).trans (issues_concat hmove).symm
  source := by
    intro tag source hsource
    obtain ⟨place, hplace, hmem⟩ := h.source tag source hsource
    exact ⟨place, hplace, List.mem_append_left _ hmem⟩

theorem of_tag {tags tags' : Table String NodeId} (h : Named start done tags) {label : String}
    (htags : tags' = if tags.contains label then tags
      else tags.insert label (start.idAt place)) :
    Named start (done ++ [.tag place label]) tags' where
  contains_eq := by
    intro tag
    have hissues : issues tag (done ++ [.tag place label]) = (issues tag done || label == tag) := by
      simp [issues]
    rw [hissues, ← h.contains_eq, Table.contains, Table.contains, find?_of_tagged htags]
    by_cases htag : tag = label
    · simp [htag]
    · simp [htag, Ne.symm htag]
  source := by
    intro tag source hsource
    rw [find?_of_tagged htags, Option.or_eq_some_iff] at hsource
    rcases hsource with hold | ⟨_, hnew⟩
    · obtain ⟨other, hother, hmem⟩ := h.source tag source hold
      exact ⟨other, hother, List.mem_append_left _ hmem⟩
    · obtain ⟨rfl, heq⟩ := Option.ite_none_right_eq_some.mp hnew
      exact ⟨place, (Option.some.inj heq).symm, List.mem_append_right _ (List.mem_singleton.mpr rfl)⟩

theorem of_leadsTo?_eq_none {tags : Table String NodeId} (h : Named start done tags)
    (hnone : leadsTo? options start done tags tag = none) :
    issues tag done = false ∧ start.scene.carrier? options.tagKey tag = none := by
  unfold leadsTo? at hnone
  split at hnone
  next hissued =>
    have hcontains := (h.contains_eq tag).trans hissued
    simp [Table.contains, hnone] at hcontains
  next hnot => exact ⟨Bool.eq_false_iff.mpr hnot, (Option.or_eq_none_iff.mp hnone).1⟩

end Named

namespace Effect

variable (h : Effect options start total log before after move log')
include h

theorem named (hnamed : Named start done before.output.tags) :
    Named start (done ++ [move]) after.output.tags := by
  cases h with
  | order _ hsame => exact hsame.tags ▸ hnamed.of_same (by simp)
  | create hsame => exact hsame.tags ▸ hnamed.of_same (by simp)
  | root hsame => exact hsame.tags ▸ hnamed.of_same (by simp)
  | tag htags _ _ => exact hnamed.of_tag htags
  | wait _ hwait =>
    rcases wait_cases hwait with ⟨_, rfl⟩ | ⟨_, rfl⟩
    · exact hnamed.of_same (by simp)
    · exact hnamed.of_same (by simp)

theorem tagsKept : TagsKept before.output.tags after.output.tags := by
  intro tag source hsource
  cases h with
  | order _ hsame => rwa [hsame.tags]
  | create hsame => rwa [hsame.tags]
  | root hsame => rwa [hsame.tags]
  | tag htags _ _ => rw [find?_of_tagged htags, hsource, Option.some_or]
  | wait _ hwait =>
    rcases wait_cases hwait with ⟨_, rfl⟩ | ⟨_, rfl⟩
    · exact hsource
    · exact hsource

/-- A move that asks a node for nothing adds no call to it and lets no reference of it wait. -/
theorem kept_of_not_ask (hunused : start.NextUnused total) (hfits : move.Fits (makes done))
    (hmade : (makes done).length ≤ total) (hplace : place < total)
    (hother : ∀ request, move ≠ .ask place request) :
    callsAt place log' = callsAt place log ∧
      waitingAt start place after.waiting = waitingAt start place before.waiting := by
  cases h with
  | create hsame => exact ⟨rfl, by rw [hsame.waiting]⟩
  | root hsame => exact ⟨rfl, by rw [hsame.waiting]⟩
  | tag _ hwaiting _ => exact ⟨rfl, by rw [hwaiting]⟩
  | @order other request _ _ hsame =>
    have hne : other ≠ place := fun heq => hother request (heq ▸ rfl)
    exact ⟨by simp [callsAt, hne], by rw [hsame.waiting]⟩
  | @wait other label _ hwait =>
    have hne : start.idAt other ≠ start.idAt place := by
      intro hids
      obtain rfl := hunused.idAt_inj (Nat.lt_of_lt_of_le hfits.1 hmade) hplace hids
      exact hother _ rfl
    rcases wait_cases hwait with ⟨_, rfl⟩ | ⟨_, rfl⟩
    · exact ⟨rfl, by simp [waitingAt, hne]⟩
    · exact ⟨rfl, rfl⟩

/-- What waits from now on is a reference that found no node. -/
theorem mem_waiting {entry : NodeId × String} (he : entry ∈ after.waiting) :
    entry ∈ before.waiting ∨ ∃ place, move = .ask place (.refer entry.2) ∧
      entry.1 = start.idAt place ∧ resolve? options (LiveScene.host.reads before.state)
        before.output entry.2 (start.idAt place) = none := by
  cases h with
  | order _ hsame => exact Or.inl (hsame.waiting ▸ he)
  | create hsame => exact Or.inl (hsame.waiting ▸ he)
  | root hsame => exact Or.inl (hsame.waiting ▸ he)
  | tag _ hwaiting _ => exact Or.inl (hwaiting ▸ he)
  | @wait place _ hnone hwait =>
    rcases wait_cases hwait with ⟨_, rfl⟩ | ⟨_, rfl⟩
    · rcases List.mem_append.mp he with hold | hnew
      · exact Or.inl hold
      · obtain rfl := List.mem_singleton.mp hnew
        exact Or.inr ⟨place, rfl, rfl, Option.map_eq_none_iff.mp hnone⟩
    · exact Or.inl he

end Effect

/-- The link of a primary input to a node, once all nodes are there. -/
def primaryCall (options : BuildOptions) (start : LiveScene) (total : Nat) (source : NodeId) : Call :=
  ⟨.link options.primaryInput options.primaryInput source, idsWith start total⟩

/-- How a reference stands after some moves, the earlier ones being those before it: it was the last
call of its node, or it waits. -/
inductive Standing (options : BuildOptions) (start : LiveScene) (total : Nat) (earlier : List Move)
    (place : Nat) (tag : String) (log : List (Nat × Call)) (building : Building LiveScene) : Prop where
  | led {source : NodeId} {calls : List Call}
      (hleads : leadsTo? options start earlier building.output.tags tag = some source)
      (hcalls : callsAt place log = calls ++ [primaryCall options start total source])
      (hwaiting : waitingAt start place building.waiting = [])
  | waits (hearlier : issues tag earlier = false)
      (hcarrier : start.scene.carrier? options.tagKey tag = none)
      (hwaiting : waitingAt start place building.waiting = [.refer tag])

theorem Standing.kept (h : Standing options start total earlier place tag log before)
    (htags : TagsKept before.output.tags after.output.tags)
    (hcalls : callsAt place log' = callsAt place log)
    (hwaiting : waitingAt start place after.waiting = waitingAt start place before.waiting) :
    Standing options start total earlier place tag log' after := by
  cases h with
  | led hleads hlast hnone =>
    exact .led (leadsTo?_of_tagsKept htags hleads) (hcalls.trans hlast) (hwaiting.trans hnone)
  | waits hearlier hcarrier hwaits => exact .waits hearlier hcarrier (hwaiting.trans hwaits)

/-- How all references stand after these moves. -/
structure Consulted (options : BuildOptions) (start : LiveScene) (total : Nat) (done : List Move)
    (log : List (Nat × Call)) (building : Building LiveScene) : Prop where
  tagging : Tagging options start done building
  named : Named start done building.output.tags
  waiting : ∀ entry ∈ building.waiting, ∃ place < (makes done).length,
    entry.1 = start.idAt place ∧ .ask place (.refer entry.2) ∈ done ∧
      start.scene.carrier? options.tagKey entry.2 = none
  standing : ∀ earlier place tag rest, done = earlier ++ .ask place (.refer tag) :: rest →
    place < total → Standing options start total earlier place tag log building

theorem concat_eq_split {α : Type} {items earlier rest : List α} {last item : α}
    (h : items ++ [last] = earlier ++ item :: rest) :
    earlier = items ∧ item = last ∧ rest = [] ∨
      ∃ rest', rest = rest' ++ [last] ∧ items = earlier ++ item :: rest' := by
  rcases List.eq_nil_or_concat rest with rfl | ⟨rest', other, rfl⟩
  · obtain ⟨hitems, hlast⟩ := List.append_inj' h rfl
    exact Or.inl ⟨hitems.symm, (List.cons.inj hlast).1.symm, rfl⟩
  · rw [List.concat_eq_append, ← List.cons_append, ← List.append_assoc] at h
    obtain ⟨hitems, hlast⟩ := List.append_inj' h rfl
    rw [List.concat_eq_append, (List.cons.inj hlast).1]
    exact Or.inr ⟨rest', rfl, hitems⟩

namespace Consulted

theorem initial (start : LiveScene) : Consulted options start total [] [] { state := start } where
  tagging := .initial start
  named := .initial start
  waiting := by simp
  standing := by simp

/-- What a reference is answered when its node is built. -/
theorem resolve?_eq (h : Consulted options start total done log before)
    (hscope : options.tagScope = .document) (hreplay : Replay start (makes done) log before)
    (hplace : place < (makes done).length) (tag : String) :
    resolve? options (LiveScene.host.reads before.state) before.output tag (start.idAt place) =
      leadsTo? options start done before.output.tags tag := by
  have hcontains := h.named.contains_eq tag
  unfold leadsTo?
  split
  next hissued =>
    refine resolve?_of_settled (fun _ hnew => ?_) _
    rw [hcontains, hissued] at hnew
    cases hnew
  next hnot =>
    have hnone : before.output.tags.find? tag = none := by
      simpa [Table.contains, hnot] using hcontains
    have hnot' : ∀ place, .tag place tag ∉ done := fun place hmem => hnot (issues_iff.mpr ⟨_, hmem⟩)
    rw [resolve?_of_document hscope _ fun hcarries => hnot' _ (h.tagging.newer _ hplace _ hcarries),
      h.tagging.carrier?_eq hreplay hnot', hnone, Option.none_or, Option.or_none]

theorem waitingAt_eq_nil (h : Consulted options start total done log before)
    (hunused : start.NextUnused total) (hmade : (makes done).length ≤ total) (hplace : place < total)
    (hasks : ∀ tag, .ask place (.refer tag) ∉ done) : waitingAt start place before.waiting = [] := by
  rw [waitingAt, List.map_eq_nil_iff, List.filter_eq_nil_iff]
  intro entry he hnode
  obtain ⟨other, hother, heq, hmem, _⟩ := h.waiting entry he
  obtain rfl : other = place :=
    hunused.idAt_inj (by omega) hplace (heq.symm.trans (beq_iff_eq.mp hnode))
  exact hasks _ hmem

theorem standing_ask (h : Consulted options start total done log before)
    (hscope : options.tagScope = .document) (hdeferred : options.deferred = true)
    (hunused : start.NextUnused total) (hreplay : Replay start (makes done) log before)
    (hplace : place < (makes done).length) (hmade : (makes done).length ≤ total)
    (hasks : ∀ tag, .ask place (.refer tag) ∉ done)
    (heffect : Effect options start total log before after (.ask place (.refer tag)) log') :
    Standing options start total done place tag log' after := by
  have hanswer := h.resolve?_eq hscope hreplay hplace tag
  have hnone := h.waitingAt_eq_nil hunused hmade (by omega) hasks
  cases heffect with
  | order horder hsame =>
    obtain ⟨source, hsource, rfl⟩ := Option.map_eq_some_iff.mp horder
    have hleads : leadsTo? options start done after.output.tags tag = some source := by
      rw [hsame.tags, ← hanswer, hsource]
    exact .led hleads (callsAt_concat_self place log (primaryCall options start total source))
      (by rw [hsame.waiting, hnone])
  | wait hunanswered hwait =>
    obtain ⟨hnot, hcarrier⟩ := h.named.of_leadsTo?_eq_none
      (hanswer.symm.trans (Option.map_eq_none_iff.mp hunanswered))
    rcases wait_cases hwait with ⟨_, rfl⟩ | ⟨hnever, _⟩
    · refine .waits hnot hcarrier ?_
      rw [waitingAt_append, hnone]
      simp [waitingAt]
    · rw [hdeferred] at hnever
      cases hnever

theorem step (h : Consulted options start total done log before)
    (hscope : options.tagScope = .document) (hdeferred : options.deferred = true)
    (hunused : start.NextUnused total) (hreplay : Replay start (makes done) log before)
    (hfits : move.Fits (makes done)) (hmade : (makes (done ++ [move])).length ≤ total)
    (hlast : ∀ place tag, .refer tag ∉ (asksAt place (done ++ [move])).dropLast)
    (hrun : move.run options start.idAt before = (.ok (), after))
    (heffect : Effect options start total log before after move log') :
    Consulted options start total (done ++ [move]) log' after := by
  have hcount : (makes (done ++ [move])).length = (makes done).length + move.makes.length := by
    rw [makes_append, makes_cons]
    simp [makes]
  -- a node that has referred to a tag is asked for nothing more
  have hquiet : ∀ {place tag}, .ask place (.refer tag) ∈ done →
      ∀ request, move ≠ .ask place request := by
    intro place tag hmem request heq
    refine hlast place tag ?_
    have hasks : asksAt place (done ++ [move]) = asksAt place done ++ [request] := by
      simp [asksAt, heq]
    rw [hasks, List.dropLast_concat]
    exact mem_asksAt_iff.mpr hmem
  refine ⟨h.tagging.step hreplay (hunused.mono (by omega)) hfits hrun, heffect.named h.named, ?_, ?_⟩
  · intro entry he
    rcases heffect.mem_waiting he with hold | ⟨place, rfl, hnode, hnone⟩
    · obtain ⟨place, hplace, hnode, hmem, hcarrier⟩ := h.waiting entry hold
      exact ⟨place, by omega, hnode, List.mem_append_left _ hmem, hcarrier⟩
    · rw [h.resolve?_eq hscope hreplay hfits.1] at hnone
      exact ⟨place, by have := hfits.1; omega, hnode, by simp,
        (h.named.of_leadsTo?_eq_none hnone).2⟩
  · intro earlier place tag rest hsplit hplace
    rcases concat_eq_split hsplit with ⟨rfl, rfl, _⟩ | ⟨rest', rfl, hdone⟩
    · refine h.standing_ask hscope hdeferred hunused hreplay hfits.1 (by omega) ?_ heffect
      exact fun other hmem => hquiet hmem _ rfl
    · have hmem : .ask place (.refer tag) ∈ done := by simp [hdone]
      obtain ⟨hcalls, hwaiting⟩ := heffect.kept_of_not_ask hunused hfits (by omega) hplace
        (hquiet hmem)
      exact (h.standing earlier place tag rest' hdone hplace).kept heffect.tagsKept hcalls hwaiting

theorem run (hscope : options.tagScope = .document) (hdeferred : options.deferred = true)
    {moves : List Move} (hordered : Ordered [] moves)
    (hunused : start.NextUnused (makes moves).length)
    (hlast : ∀ place tag, .refer tag ∉ (asksAt place moves).dropLast)
    (hrun : runMoves options start.idAt moves { state := start } = (.ok (), after)) :
    ∃ log, Replay start (makes moves) log after ∧
      Consulted options start (makes moves).length moves log after := by
  refine Replay.exists_log_of_run hordered hunused
    (P := Consulted options start (makes moves).length) (initial start) ?_
    (List.append_nil moves).symm hrun
  intro done move rest log log' before after hsplit h hreplay hfits hmove heffect _
  have hsplit' : moves = done ++ [move] ++ rest := by rw [hsplit, List.append_assoc]; rfl
  have hmade : (makes (done ++ [move])).length ≤ (makes moves).length := by
    rw [hsplit', makes_append (done ++ [move]), List.length_append]
    omega
  refine h.step hscope hdeferred hunused hreplay hfits hmade (fun place tag hmem => ?_) hmove heffect
  refine hlast place tag ?_
  rw [hsplit', asksAt_append]
  exact mem_dropLast_append hmem

/-- No reference that waits can be answered by an older node. -/
theorem settled (h : Consulted options start total done log before)
    (hreplay : Replay start (makes done) log before) {entry : NodeId × String}
    (he : entry ∈ before.waiting) : Settled options before entry.2 := by
  intro _ hnew
  obtain ⟨_, _, _, _, hcarrier⟩ := h.waiting entry he
  rw [h.named.contains_eq] at hnew
  rw [h.tagging.carrier?_eq hreplay, hcarrier]
  intro place hmem
  rw [issues_iff.mpr ⟨place, hmem⟩] at hnew
  cases hnew

end Consulted

end Build

end ShaderMigration
