import Libvirtio.Run.Service

namespace Libvirtio.Crew

/-- The device while it holds these chains. -/
def holding (crew : Crew) (held : List (Nat × DescriptorChain)) : Tracked where
  machine := crew.machine
  resources := crew.resources
  held _ := held
  lawful _ := True

section
variable {crew : Crew}

/-- The works of the loop are those of the chains that the device holds. -/
structure Linked (queue : VirtQueue) (index : Nat) (s : State crew) (held : List (Nat × DescriptorChain))
    (c : Contract.System) : Prop where
  coupled : Driver.Coupled (holding crew held) queue index s.driver c
  placed : held.Perm (s.works.map crew.place)
  off : ∀ work ∈ s.works, ∀ a, (crew.place work).2.Writable a → ¬Abstract.InRings queue.layout a
  live : s.control.down = false ∧ s.control.revoked = false
  published : s.control.published index = s.driver.published.length
  popped : s.control.popped index = Abstract.tally index (s.driver.view.abstract held)
  others : ∀ other, other ≠ index → s.control.published other = s.control.popped other

variable {good : crew.Work → Prop} {fit : DmaMemory → crew.Work → crew.Ticket → Prop} {queue : VirtQueue} {index : Nat}
  {s t : State crew} {held : List (Nat × DescriptorChain)} {c : Contract.System} {label : Label crew}

theorem offered_index (other : Nat) (published : Nat → Nat) : offered index other published index = published index := by
  unfold offered
  split
  · rfl
  · rename_i distinct
    rw [Function.update_of_ne (Ne.symm distinct)]

theorem popped_index (other : Nat) (popped : Nat → Nat) :
    Function.update popped other (popped other + 1) index = popped index + if other = index then 1 else 0 := by
  by_cases same : other = index
  · subst same
    simp
  · simp [same, Ne.symm same]

theorem offered_other {published popped : Nat → Nat} {other third : Nat} (distinct : third ≠ index)
    (same : published third = popped third) :
    offered index other published third = Function.update popped other (popped other + 1) third := by
  unfold offered
  by_cases here : third = other
  · subst here
    rw [if_neg distinct, Function.update_self, Function.update_self, same]
  · rw [Function.update_of_ne here]
    split
    · exact same
    · rw [Function.update_of_ne here, same]

theorem works_set {position : Nat} {job : Job crew} (located : s.jobs[position]? = some job) (stage : Stage crew) :
    (s.jobs.set position ⟨job.work, stage⟩).map Job.work = s.jobs.map Job.work := by
  rw [List.map_set]
  apply List.ext_getElem?
  intro i
  by_cases here : position = i
  · subst here
    rw [List.getElem?_set_self', List.getElem?_map, located]
    rfl
  · rw [List.getElem?_set_ne here]

namespace Linked

theorem held_off (linked : Linked queue index s held c) {i : Nat} {chain : DescriptorChain}
    (holds : (i, chain) ∈ held) (a : Nat) (writable : chain.Writable a) : ¬Abstract.InRings queue.layout a := by
  obtain ⟨work, listed, place⟩ := List.mem_map.mp (linked.placed.mem_iff.mp holds)
  have off := linked.off work listed a
  rw [place] at off
  exact off writable

theorem steady (linked : Linked queue index s held c) (driver : t.driver = s.driver)
    (works : s.works.Perm t.works) (live : t.control.down = s.control.down ∧ t.control.revoked = s.control.revoked)
    (published : t.control.published = s.control.published) (popped : t.control.popped = s.control.popped) :
    Linked queue index t held c where
  coupled := driver ▸ linked.coupled
  placed := linked.placed.trans (works.map _)
  off := fun work member => linked.off work (works.mem_iff.mpr member)
  live := by rw [live.1, live.2]; exact linked.live
  published := by rw [published, driver]; exact linked.published
  popped := by rw [popped, driver]; exact linked.popped
  others := by rw [published, popped]; exact linked.others

theorem drive (linked : Linked queue index s held c) (apart : Contract.RingsApart queue)
    {label : Driver.Label crew.machine} (driver : ∀ port, label ≠ .round port) {after : Driver.State crew.machine}
    (moved : Driver.step queue index s.driver label = some after) {published : Nat → Nat}
    (counted : published index = s.control.published index + label.adds.length)
    (same : ∀ other, other ≠ index → published other = s.control.published other) :
    ∃ d, Linked queue index { s with driver := after, control := { s.control with published } } held d := by
  obtain ⟨d, coupled⟩ := linked.coupled.drive apart driver moved
  have beside := Driver.step_beside driver moved
  have log : after.view.log = s.driver.view.log := by rw [beside.view]
  refine ⟨d, coupled, linked.placed, linked.off, linked.live, ?_, ?_,
    fun other distinct => (same other distinct).trans (linked.others other distinct)⟩
  · rw [beside.published, List.length_append, ← linked.published]
    exact counted
  · simp only [Abstract.tally, DeviceView.abstract, log]
    exact linked.popped

section
variable (apart : Contract.RingsApart queue) (found : crew.resources.queues[index]? = some queue.layout)
  (others : ∀ i layout, i ≠ index → crew.resources.queues[i]? = some layout →
    ∀ a, layout.Used a → ¬Abstract.InRings queue.layout a)
include apart found others

/-- What the device does to its queues keeps it coupled with the driver. -/
theorem traced (linked : Linked queue index s held c) {view : DeviceView crew.machine.State}
    {actions : List Abstract.Action} {held' : List (Nat × DescriptorChain)}
    (trace : Trace (Abstract.Step crew.resources) (s.driver.view.abstract held) actions (view.abstract held'))
    (clean : ∀ action ∈ actions, action.Clean)
    (off : ∀ i chain, .take i chain ∈ actions → ∀ a, chain.Writable a → ¬Abstract.InRings queue.layout a)
    (driver : t.driver = { s.driver with view }) (placed : held'.Perm (t.works.map crew.place))
    (works : ∀ work ∈ t.works, ∀ a, (crew.place work).2.Writable a → ¬Abstract.InRings queue.layout a)
    (live : t.control.down = s.control.down ∧ t.control.revoked = s.control.revoked)
    (published : t.control.published index = s.control.published index)
    (popped : t.control.popped index = s.control.popped index + (actions.map (Abstract.Action.taken index)).sum)
    (same : ∀ other, other ≠ index → t.control.published other = t.control.popped other) :
    ∃ d, Linked queue index t held' d := by
  obtain ⟨d, inv, device, unseen⟩ := Abstract.trace_coupled trace clean linked.coupled.device linked.coupled.inv apart
    found (fun i chain hands => hands.elim linked.held_off (off i chain)) others
  refine ⟨d, ?_, placed, works, ?_, ?_, ?_, same⟩
  · rw [driver]
    exact ⟨device, inv, unseen.published.trans linked.coupled.published, unseen.reaped.trans linked.coupled.reaped, trivial⟩
  · rw [live.1, live.2]
    exact linked.live
  · rw [published, driver]
    exact linked.published
  · rw [popped, driver, linked.popped]
    exact (Abstract.trace_tally index trace clean).symm

/-- Work on a held chain changes the stage of a job. -/
theorem worked (linked : Linked queue index s held c) {position : Nat} {job : Job crew}
    (located : s.jobs[position]? = some job) {sound : crew.machine.State → Prop} {view : DeviceView crew.machine.State}
    (aside : Aside (crew.place job.work).2.Writable sound s.driver.view view) (stage : Stage crew) {control : Run.State}
    (live : control.down = s.control.down ∧ control.revoked = s.control.revoked)
    (published : control.published = s.control.published) (popped : control.popped = s.control.popped) :
    ∃ d, Linked queue index { s.see view with control, jobs := s.jobs.set position ⟨job.work, stage⟩ } held d := by
  have same : State.works { s.see view with control, jobs := s.jobs.set position ⟨job.work, stage⟩ } = s.works := by
    simp only [State.works, works_set located, State.see]
  have mine : crew.place job.work ∈ held := by
    apply linked.placed.mem_iff.mpr
    apply List.mem_map_of_mem
    exact List.mem_append_left _ (List.mem_map_of_mem (List.mem_of_getElem? located))
  refine linked.traced apart found others (.single (aside.step mine)) ?_ (by simp) rfl (same ▸ linked.placed)
    (same ▸ linked.off) live (by rw [published]) ?_ ?_
  · intro action member
    rw [List.mem_singleton.mp member]
    trivial
  · simp only [popped]
    rfl
  · simp only [published, popped]
    exact linked.others

end

theorem advance (linked : Linked queue index s held c) (aligned : Aligned good fit s) {control : Run.State}
    (moved : exec (Run.step crew.config) s.control [.advance] = some control) (running : control.Running) :
    Linked queue index { s with control, hand := if control.pc = .top then none else s.hand } held c := by
  rw [Execution.exec_singleton] at moved
  have keep (idle : control.pc = .top → completes s.control.pc = false)
      (same : control.down = s.control.down ∧ control.revoked = s.control.revoked)
      (published : control.published = s.control.published) (popped : control.popped = s.control.popped) :
      Linked queue index { s with control, hand := if control.pc = .top then none else s.hand } held c := by
    refine linked.steady rfl ?_ same published popped
    simp only [State.works]
    split
    · rename_i top
      rw [aligned.empty_hand (idle top)]
    · rfl
  cases Run.step_moves moved with
  | listen | proceed | await | scan | leaveScan | endPass | select | write =>
      exact keep (fun impossible => by cases impossible) ⟨rfl, rfl⟩ rfl rfl
  | idle pc => exact keep (fun _ => by rw [pc]; rfl) ⟨rfl, rfl⟩ rfl rfl
  | unlisten _ down | forsake _ down => cases linked.live.1.symm.trans down
  | drain _ stopped => cases linked.live.1.symm.trans stopped.1
  | drained => exact absurd rfl (running true)

theorem grasp (linked : Linked queue index s held c) (aligned : Aligned good fit s) {position : Nat} {work : crew.Work}
    {reply : crew.Reply} (located : s.jobs[position]? = some ⟨work, .done (.ok reply)⟩) {control : Run.State}
    (moved : exec (Run.step crew.config) s.control [.pollRequest position] = some control) (running : control.Running) :
    Linked queue index { s with control, jobs := s.jobs.eraseIdx position, hand := some (work, reply) } held c := by
  rw [Execution.exec_singleton] at moved
  obtain ⟨request, pending, phase⟩ := aligned.listed located
  obtain ⟨inside, here⟩ := List.getElem?_eq_some_iff.mp located
  have works (pc : s.control.pc = .select) : s.works.Perm ((s.jobs.eraseIdx position).map Job.work ++ [work]) := by
    have same : s.works = s.jobs.map Job.work := by
      simp [State.works, aligned.empty_hand (show completes s.control.pc = false by rw [pc]; rfl)]
    have whole := (List.getElem_cons_eraseIdx_perm inside).map Job.work
    rw [List.map_cons, here] at whole
    rw [same]
    exact whole.symm.trans (List.perm_append_singleton _ _).symm
  cases Run.step_moves moved with
  | requestReady pc => exact linked.steady rfl (works pc) ⟨rfl, rfl⟩ rfl rfl
  | requestRefused | requestFailed => exact absurd rfl (running false)
  | requestStarting _ at_ other | requestRunning _ at_ other =>
      cases pending.symm.trans at_
      cases phase.symm.trans other

theorem pollRequest (linked : Linked queue index s held c) (aligned : Aligned good fit s) {position : Nat}
    {job : Job crew} (located : s.jobs[position]? = some job) (unfinished : ∀ reply, job.stage ≠ .done (.ok reply))
    {control : Run.State} (moved : exec (Run.step crew.config) s.control [.pollRequest position] = some control)
    (running : control.Running) : Linked queue index { s with control } held c := by
  rw [Execution.exec_singleton] at moved
  obtain ⟨request, pending, phase⟩ := aligned.listed located
  cases Run.step_moves moved with
  | requestReady _ at_ finished =>
      cases pending.symm.trans at_
      obtain ⟨reply, done⟩ := job_done (phase.symm.trans finished)
      exact absurd done (unfinished reply)
  | requestStarting => exact linked.steady rfl (.refl _) ⟨rfl, rfl⟩ rfl rfl
  | requestRunning => exact linked
  | requestRefused | requestFailed => exact absurd rfl (running false)

end Linked

/-- Nothing stops the loop, and no chain that the device takes offers the rings for writing. -/
def Orderly (queue : VirtQueue) (s : State crew) : Label crew → Prop
  | .take => ∀ chain, (pop crew.resources (Run.pollQueue crew.config s.control).1 s.driver.view).1 = .ok (some chain) →
      ∀ a, chain.Writable a → ¬Abstract.InRings queue.layout a
  | .stopDown | .revoke _ | .stopWake => False
  | _ => True

section
variable (lawful : crew.Lawful good fit) (apart : Contract.RingsApart queue)
  (found : crew.resources.queues[index]? = some queue.layout)
  (others : ∀ i layout, i ≠ index → crew.resources.queues[i]? = some layout →
    ∀ a, layout.Used a → ¬Abstract.InRings queue.layout a)
include lawful apart found others

namespace Linked

theorem starts (linked : Linked queue index s held c) (aligned : Aligned good fit s) {position : Nat} {work : crew.Work}
    {ticket : crew.Ticket} {view : DeviceView crew.machine.State} (located : s.jobs[position]? = some ⟨work, .waiting⟩)
    (started : crew.startWork work s.driver.view = (.ok ticket, view)) {control : Run.State}
    (starts : Starts position (crew.leases ticket) s.control control) :
    ∃ d, Linked queue index { s.see view with control, jobs := s.jobs.set position ⟨work, .started ticket⟩ } held d := by
  have mine : work ∈ s.works := List.mem_append_left _ (List.mem_map_of_mem (List.mem_of_getElem? located))
  have aside := (lawful.start work s.driver.view (aligned.good work mine) s.driver.view (.here trivial)).1
  rw [started] at aside
  exact linked.worked apart found others located aside _ starts.same starts.published starts.popped

theorem takeWork (linked : Linked queue index s held c) (aligned : Aligned good fit s)
    (off : ∀ chain, (pop crew.resources (Run.pollQueue crew.config s.control).1 s.driver.view).1 = .ok (some chain) →
      ∀ a, chain.Writable a → ¬Abstract.InRings queue.layout a)
    {left : Nat} {work : crew.Work} {view : DeviceView crew.machine.State} {control : Run.State}
    (pc : s.control.pc = .polling (left + 1))
    (answered : crew.takeWork (Run.pollQueue crew.config s.control).1 s.driver.view = (.ok (some work), view))
    (moved : exec (Run.step crew.config) s.control (Crew.found index (Run.pollQueue crew.config s.control).1 .work) =
      some control) :
    ∃ held' d, Linked queue index { s.see view with control, jobs := s.jobs ++ [⟨work, .waiting⟩] } held' d := by
  rcases lawful.take_cases (Run.pollQueue crew.config s.control).1 s.driver.view held with
    ⟨fault, after, same, -⟩ | ⟨after, same, -⟩ | ⟨_, chain, after, same, popped, place, -, trace⟩ <;>
      cases answered.symm.trans same
  have none := aligned.empty_hand (by rw [pc]; rfl)
  have works : State.works { s.see view with control, jobs := s.jobs ++ [⟨work, .waiting⟩] } = s.works ++ [work] := by
    simp [State.works, State.see, none]
  refine ⟨held ++ [((Run.pollQueue crew.config s.control).1, chain)], linked.traced apart found others trace
    (by simp [Abstract.Action.Clean]) ?_ rfl ?_ (works ▸ fun any member => ?_) ?_ ?_ ?_ ?_⟩
  · rintro i taken (_ | ⟨_, _ | ⟨_, impossible⟩⟩)
    · exact off chain popped
    · cases impossible
  · rw [works, List.map_append, List.map_singleton, place]
    exact linked.placed.append_right _
  · rcases List.mem_append.mp member with old | new
    · exact linked.off any old
    · rw [List.mem_singleton.mp new, place]
      exact off chain popped
  all_goals cases Run.step_moves (found_eq_some moved)
  · exact ⟨rfl, rfl⟩
  · exact offered_index _ _
  · simp only [List.map_cons, List.map_nil, List.sum_cons, List.sum_nil, Abstract.Action.taken, Nat.add_zero]
    exact popped_index _ _
  · exact fun third distinct => offered_other distinct (linked.others third distinct)

theorem complete (linked : Linked queue index s held c) (aligned : Aligned good fit s) {work : crew.Work}
    {reply : crew.Reply} {view : DeviceView crew.machine.State} {control : Run.State}
    (handed : s.hand = some (work, reply)) (answered : crew.completeWork work reply s.driver.view = (.ok (), view))
    (moved : exec (Run.step crew.config) s.control [.complete .announced] = some control) :
    ∃ held' d, Linked queue index { s.see view with control, hand := none } held' d := by
  have works : s.works = s.jobs.map Job.work ++ [work] := by simp [State.works, handed]
  have mine : work ∈ s.works := by simp [works]
  obtain ⟨before, rest, split⟩ := List.append_of_mem (linked.placed.mem_iff.mpr (List.mem_map_of_mem mine))
  obtain ⟨actions, realized, quiet⟩ := lawful.complete_realized (aligned.good work mine) reply s.driver.view before rest
  rw [answered, ← split] at realized
  have fewer : State.works { s.see view with control, hand := none } = s.jobs.map Job.work := by
    simp [State.works, State.see]
  rw [Execution.exec_singleton] at moved
  refine ⟨before ++ rest, linked.traced apart found others realized.trace (realized.clean () rfl)
    (fun i chain member => absurd member (quiet i chain)) rfl ?_ (fewer ▸ fun other member => ?_) ?_ ?_ ?_ ?_⟩
  · have placed := linked.placed
    rw [works, split, List.map_append, List.map_singleton] at placed
    rw [fewer]
    exact (List.perm_middle.symm.trans (placed.trans (List.perm_append_singleton _ _))).cons_inv
  · exact linked.off other (works ▸ List.mem_append_left _ member)
  all_goals cases Run.step_moves moved
  · exact ⟨rfl, rfl⟩
  · rfl
  · rw [Abstract.taken_none index quiet]
    rfl
  · exact linked.others

theorem acts (linked : Linked queue index s held c) (aligned : Aligned good fit s) (orderly : Orderly queue s label)
    (acts : Acts queue index s label t) (running : t.control.Running) : ∃ held' d, Linked queue index t held' d := by
  cases acts with
  | publish driven moved =>
      rw [Execution.exec_singleton] at moved
      cases Run.step_moves moved with
      | publish =>
          refine ⟨held, linked.drive apart (fun _ => by simp) driven ?_ fun other distinct => ?_⟩
          · exact Function.update_self ..
          · exact Function.update_of_ne distinct ..
  | reap driven | elsewhere driven => exact ⟨held, linked.drive apart (fun _ => by simp) driven rfl fun _ _ => rfl⟩
  | host change =>
      have coupled := linked.coupled
      exact ⟨held, c, ⟨⟨coupled.device.guest, coupled.device.state, coupled.device.outstanding, coupled.device.completed⟩,
        coupled.inv, coupled.published, coupled.reaped, trivial⟩, linked.placed, linked.off, linked.live, linked.published,
        linked.popped, linked.others⟩
  | kick moved =>
      rw [Execution.exec_singleton] at moved
      cases Run.step_moves moved with
      | kick => exact ⟨held, c, linked.steady rfl (.refl _) ⟨rfl, rfl⟩ rfl rfl⟩
  | stopDown | revoke | stopWake => exact orderly.elim
  | @finish position world work ticket result view control located ran moved =>
      have member := List.mem_of_getElem? located
      have mine : work ∈ s.works := List.mem_append_left _ (List.mem_map_of_mem member)
      have aside := (lawful.run world work ticket s.driver.view (aligned.good work mine) (aligned.fit _ member ticket rfl)
        s.driver.view (.here trivial)).1
      rw [ran] at aside
      rw [Execution.exec_singleton] at moved
      cases Run.step_moves moved with
      | finish => exact ⟨held, linked.worked apart found others located aside _ ⟨rfl, rfl⟩ rfl rfl⟩
  | advance moved => exact ⟨held, c, linked.advance aligned moved running⟩
  | @takeNone left view control pc answered moved =>
      rcases lawful.take_cases (Run.pollQueue crew.config s.control).1 s.driver.view held with
        ⟨fault, after, same, -⟩ | ⟨after, same, -, trace⟩ | ⟨_, _, after, same, -⟩ <;> cases answered.symm.trans same
      rw [Execution.exec_singleton] at moved
      cases Run.step_moves moved with
      | takeNone =>
          exact ⟨held, linked.traced apart found others trace (by simp [Abstract.Action.Clean]) (by simp) rfl
            linked.placed linked.off ⟨rfl, rfl⟩ rfl rfl linked.others⟩
  | takeWork pc answered moved => exact linked.takeWork lawful apart found others aligned orderly pc answered moved
  | pollWake moved =>
      rw [Execution.exec_singleton] at moved
      cases Run.step_moves moved with
      | awaitReady | selectReady | awaitPending | selectPending =>
          exact ⟨held, c, linked.steady rfl (.refl _) ⟨rfl, rfl⟩ rfl rfl⟩
  | grasp located moved => exact ⟨held, c, linked.grasp aligned located moved running⟩
  | pollRequest located unfinished _ moved => exact ⟨held, c, linked.pollRequest aligned located unfinished moved running⟩
  | start pc located started moved =>
      exact ⟨held, linked.starts lawful apart found others aligned located started (.of_start pc moved)⟩
  | startAtOnce located _ started moved =>
      exact ⟨held, linked.starts lawful apart found others aligned located started (.of_poll moved)⟩
  | complete pc handed answered moved => exact linked.complete lawful apart found others aligned handed answered moved

end Linked

end

theorem Linked.settled (linked : Linked queue index s held c) : settle s = s := by
  have live : s.driver.view.guest.leasesLeft = none := by
    have guest : c.view.guest = s.driver.view.guest := linked.coupled.device.guest
    rw [← guest]
    exact linked.coupled.inv.ready.live
  rw [settle, if_neg (by simp [live])]


namespace Linked

theorem counts (linked : Linked queue index s held c) :
    s.control.popped index = c.popped.length ∧ s.control.published index = c.published.length := by
  have logged : c.completed = Abstract.completedOn index s.driver.view.log := linked.coupled.device.completed
  have outstanding : c.outstanding = Abstract.heldOn index held := linked.coupled.device.outstanding
  have counted := linked.coupled.inv.counted
  rw [logged, outstanding] at counted
  exact ⟨linked.popped.trans counted, linked.published.trans (congrArg List.length linked.coupled.published.symm)⟩

section
variable (found : crew.resources.queues[index]? = some queue.layout)
include found

theorem pop_index (linked : Linked queue index s held c) {chain : DescriptorChain}
    (popped : (pop crew.resources index s.driver.view).1 = .ok (some chain)) :
    s.control.popped index < s.control.published index := by
  obtain ⟨taken, published⟩ := linked.counts
  have some_left : c.popped.length ≠ c.published.length := by
    intro all
    have none : (pop crew.resources index s.driver.view).1 = .ok none := (linked.coupled.pop_none_iff found).mpr all
    cases popped.symm.trans none
  have le := linked.coupled.inv.popped_le
  omega

theorem pop_none (linked : Linked queue index s held c) {other : Nat}
    (popped : (pop crew.resources other s.driver.view).1 = .ok none) :
    s.control.popped other = s.control.published other := by
  by_cases same : other = index
  · subst same
    obtain ⟨taken, published⟩ := linked.counts
    rw [taken, published]
    exact (linked.coupled.pop_none_iff found).mp popped
  · exact (linked.others other same).symm

theorem found_isSome (linked : Linked queue index s held c) {other : Nat} {chain : DescriptorChain}
    (popped : (pop crew.resources other s.driver.view).1 = .ok (some chain)) {taken : Run.Taken}
    (enabled : ∀ published : Nat → Nat, s.control.popped other < published other →
      (Run.step crew.config { s.control with published } (.take taken)).isSome) :
    (exec (Run.step crew.config) s.control (Crew.found index other taken)).isSome := by
  unfold Crew.found
  split
  · rename_i same
    subst same
    rw [List.nil_append, Execution.exec_singleton]
    exact enabled _ (linked.pop_index found popped)
  · rename_i distinct
    have configured : other < crew.config.queues := by
      rcases onQueue_cases crew.resources other VirtQueue.pop s.driver.view [] with
        ⟨fault, failed⟩ | ⟨q, state, result, next, located, -⟩
      · have impossible : (pop crew.resources other s.driver.view).1 = .error fault := congrArg Prod.fst failed
        cases popped.symm.trans impossible
      · exact (List.getElem?_eq_some_iff.mp located.found).1
    have published : Run.step crew.config s.control (.publish other) = some { s.control with
        published := Function.update s.control.published other (s.control.published other + 1) } := by
      simp only [Run.step, if_pos configured]
    rw [List.singleton_append, exec, published, Option.bind_some, Execution.exec_singleton]
    apply enabled
    rw [Function.update_self, linked.others other distinct]
    exact Nat.lt_succ_self _

theorem accepts (linked : Linked queue index s held c) (lawful : crew.Lawful good fit) (aligned : Aligned good fit s) :
    Accepts queue index s where
  take left pc := by
    rw [step_isSome]
    simp only [act, take, pc]
    rcases lawful.take_cases (Run.pollQueue crew.config s.control).1 s.driver.view held with
      ⟨fault, after, answered, lost⟩ | ⟨after, answered, popped, -⟩ | ⟨work, chain, after, answered, popped, -⟩
    · simp only [answered]
      split
      · rw [go_isSome]
        simp [State.see, Run.step, Run.take, pc]
      · rename_i changed
        rcases lost with same | ⟨chain, popped⟩
        · exact absurd (by rw [same]) changed
        · rw [go_isSome]
          apply linked.found_isSome found popped
          intro published more
          simpa [Run.step, Run.take, Run.pollQueue, pc] using more
    · have all := linked.pop_none found popped
      simp only [answered, go_isSome]
      simpa [State.see, Run.step, Run.take, pc, linked.live.2] using all
    · simp only [answered, Option.isSome_map, go_isSome]
      apply linked.found_isSome found popped
      intro published more
      simpa [Run.step, Run.take, Run.pollQueue, pc, linked.live.2] using more
  start position pc := by
    obtain ⟨-, work, located⟩ := aligned.begun position pc
    obtain ⟨⟨queueIndex, chain, phase⟩, pending, fresh⟩ := aligned.listed located
    obtain rfl : phase = .fresh := fresh
    have mine : work ∈ s.works := List.mem_append_left _ (List.mem_map_of_mem (List.mem_of_getElem? located))
    obtain ⟨-, returns⟩ := lawful.start work s.driver.view (aligned.good work mine) s.driver.view (.here trivial)
    rw [step_isSome]
    simp only [act, pc, start, located]
    split
    · rename_i ticket view run
      rw [run] at returns
      have holds : crew.config.holdsLeases = true ↔ 0 < crew.leases ticket := (returns ticket rfl).2
      rw [Option.isSome_map, go_isSome]
      simp [State.see, Run.step, Run.start, pc, pending, linked.live.2, holds]
    · rw [go_isSome]
      simp [State.see, Run.step, Run.start, pc]
  complete request usedLength pc := by
    obtain ⟨work, reply, hand⟩ := aligned.handed pc
    rw [step_isSome]
    simp only [act, Crew.complete, pc, hand]
    split
    · rw [go_isSome]
      simp [State.see, Run.step, Run.complete, pc, linked.live.2]
    · split
      · rw [go_isSome]
        simp [State.see, Run.step, Run.complete, pc]
      · rw [go_isSome]
        simp [State.see, Run.step, Run.complete, pc, linked.live.2]
  finish position work ticket world located := aligned.finish_isSome world located

end

end Linked

theorem quiet_run {config : Run.Config} {a : Run.State} {labels : List Run.Label}
    (run : exec (Run.step config) Run.initial labels = some a) (pc : a.pc = .created ∨ a.pc = .awaiting) :
    a.pending = [] := by
  refine Execution.invariant (fun a => a.pc = .created ∨ a.pc = .awaiting → a.pending = []) ?_ (fun _ => rfl) run pc
  intro a label b quiet stepped pc
  cases Run.step_moves stepped with
  | publish | kick | stopDown | stopRevoke | stopWake | finishDetached | requestRunning => exact quiet pc
  | finish found =>
      have empty := quiet pc
      rw [empty] at found
      cases found
  | listen _ idle => exact idle.2.1
  | await created => exact quiet (.inl created)
  | awaitPending awaiting => exact quiet (.inr awaiting)
  | selectPending select =>
      rw [select] at pc
      rcases pc with impossible | impossible <;> cases impossible
  | _ => rcases pc with impossible | impossible <;> cases impossible

theorem quiet_heard {config : Run.Config} {a : Run.State} (inv : Run.Inv config a) (pc : a.pc = .awaiting)
    (wake : a.wake = ⟨false, .waiting⟩) (other : Nat) : a.kicked other ≤ a.popped other := by
  have place := inv.place
  simp only [Run.Place, pc] at place
  refine (place other).resolve_left (Notify.not_armed ?_ ?_)
  · rw [wake]
  · rw [wake]

/-- While the loop runs, it is where a run of it can be that nothing stops, and agrees with the device. -/
def Unstopped (good : crew.Work → Prop) (fit : DmaMemory → crew.Work → crew.Ticket → Prop) (queue : VirtQueue)
    (index : Nat) (s : State crew) : Prop :=
  s.control.Running →
    Leads crew.config false Run.initial s.control ∧ Aligned good fit s ∧ ∃ held c, Linked queue index s held c

theorem Orderly.going (orderly : Orderly queue s label) : label.stops = false := by
  cases label with
  | stopDown | revoke | stopWake => exact orderly.elim
  | _ => rfl

section
variable (shipped : crew.Shipped) {start : Driver.State crew.machine} {labels : List (Label crew)}
  (fresh : start.view.log = [] ∧ start.published = [] ∧ start.reaped = [])
  (known : start.view.states[index]? = some .new) (found : crew.resources.queues[index]? = some queue.layout)
  (ready : queue.Ready start.view.guest) (apart : Contract.RingsApart queue)
  (others : ∀ i layout, i ≠ index → crew.resources.queues[i]? = some layout →
    ∀ a, layout.Used a → ¬Abstract.InRings queue.layout a)
  (available : Store.read start.view.guest.flat (queue.layout.available.gpa + 2) 2 = some [0, 0])
  (used : Store.read start.view.guest.flat (queue.layout.used.gpa + 2) 2 = some [0, 0])
  (orderly : Execution.Along (step queue index) (Orderly queue) (initial start) labels)
  (run : exec (step queue index) (initial start) labels = some s)
include shipped fresh known found ready apart others available used orderly run

theorem unstopped_along : ∃ good fit, crew.Lawful good fit ∧ Unstopped good fit queue index s := by
  obtain ⟨good, fit, lawful⟩ := shipped.lawful
  have tally : 0 = Abstract.tally index (start.view.abstract []) := by
    simp only [Abstract.tally, DeviceView.abstract, fresh.1]
    rfl
  have begins : Linked queue index (initial start) [] (Contract.initial start.view.guest) := by
    refine ⟨.initial ⟨rfl, trivial⟩ fresh known ready available used, .nil, ?_, ⟨rfl, rfl⟩, ?_, tally, fun _ _ => rfl⟩
    · exact fun _ member => by cases member
    · exact (congrArg List.length fresh.2.1).symm
  refine ⟨good, fit, lawful, Execution.invariant_along (Unstopped good fit queue index) ?_ ?_ orderly run⟩
  · intro s label t unstopped allowed stepped running
    obtain ⟨u, acted, rfl⟩ := Option.map_eq_some_iff.mp stepped
    have going := settle_running.mp running
    have acts := act_acts acted going
    have leads := acts.leads
    rw [allowed.going] at leads
    obtain ⟨past, aligned, held, c, linked⟩ := unstopped (leads.running going)
    obtain ⟨held', d, next⟩ := linked.acts lawful apart found others aligned allowed acts going
    rw [next.settled]
    exact ⟨past.trans leads, aligned.acts lawful acts going, held', d, next⟩
  · exact fun _ => ⟨.refl _ _ _, .initial ready.live, [], _, begins⟩

/-- The device with its loop is a run of the loop that takes any answer: it has a step for every answer of the device,
and counts what the driver published and what the device took. -/
theorem device_refines_loop (running : s.control.Running) :
    (∃ past, exec (Run.step crew.config) Run.initial past = some s.control ∧ ∀ label ∈ past, label.stops = false) ∧
      Accepts queue index s ∧
      s.control.published index = s.driver.published.length ∧
      s.control.popped index = (Abstract.completedOn index s.driver.view.log).length +
        (Abstract.heldOn index (s.works.map crew.place)).length := by
  obtain ⟨good, fit, lawful, unstopped⟩ :=
    unstopped_along shipped fresh known found ready apart others available used orderly run
  obtain ⟨⟨past, ran, going⟩, aligned, held, c, linked⟩ := unstopped running
  refine ⟨⟨past, ran, fun label member => by simpa using going label member⟩, linked.accepts found lawful aligned,
    linked.published, linked.popped.trans ?_⟩
  have same := (linked.placed.filterMap fun entry => if entry.1 = index then some entry.2 else none).length_eq
  exact congrArg _ same

/-- When the loop waits for a `kick()` with nothing in flight, every chain that was published before the last one has
been completed. -/
theorem kicked_requests_completed (few : s.control.polls < 2 ^ 64) (pc : s.control.pc = .awaiting)
    (wake : s.control.wake = ⟨false, .waiting⟩) :
    let completed := Abstract.completedOn index s.driver.view.log
    (completed.map Prod.fst).Perm (s.driver.published.take completed.length) ∧
      s.control.kicked index ≤ completed.length := by
  intro completed
  obtain ⟨good, fit, lawful, unstopped⟩ :=
    unstopped_along shipped fresh known found ready apart others available used orderly run
  obtain ⟨⟨past, ran, going⟩, aligned, held, c, linked⟩ := unstopped (fun ok => by simp [pc])
  have none : held = [] := by
    have jobs : s.jobs = [] := by
      have phases := aligned.phases
      rw [quiet_run ran (.inr pc)] at phases
      exact List.map_eq_nil_iff.mp phases.symm
    have hand := aligned.empty_hand (by rw [pc]; rfl)
    have placed := linked.placed
    rw [State.works, jobs, hand] at placed
    exact placed.eq_nil
  have outstanding : c.outstanding = [] := by
    rw [linked.coupled.device.outstanding]
    simp only [DeviceView.abstract, holding, none, Abstract.heldOn_nil]
  have logged : c.completed = completed := linked.coupled.device.completed
  have inv := linked.coupled.inv
  have counted := inv.counted
  have handled := inv.handled
  rw [outstanding, List.length_nil, Nat.add_zero, logged] at counted
  rw [inv.heads, outstanding, List.map_nil, List.append_nil, ← counted, logged, linked.coupled.published] at handled
  have unstopping : ∀ label ∈ past, label.stops = false := fun label member => by simpa using going label member
  refine ⟨handled, ?_⟩
  calc s.control.kicked index
      ≤ s.control.popped index := quiet_heard (Run.run_inv ran unstopping few) pc wake index
    _ = c.popped.length := linked.counts.1
    _ = completed.length := counted.symm

end

end

def flushQueue : VirtQueue := ⟨⟨0, 2, ⟨0, 32⟩, ⟨32, 8⟩, ⟨48, 20⟩⟩⟩

def flushResources : Resources where
  queues := [flushQueue.layout]
  interrupts := [fun _ _ => .ok ()]
  negotiatedFeatures := 0

def flushChain : DescriptorChain := ⟨0, [⟨80, 16, virtqDescFNext, 1⟩, ⟨96, 1, virtqDescFWrite, 0⟩]⟩

def flushCrew : Crew := Block.crew Block.imageFile ⟨false, 512, Block.virtioBlkFFlush⟩ flushResources

/-- The header of a flush request is at 80. -/
def flushStart : Driver.State flushCrew.machine where
  view := {
    guest := {
      memory := DmaMemory.single ⟨0, 0, 100⟩ (by decide)
      distinct := by decide
      host := fun a => if a = 80 then 4 else (([80, 0, 0, 0, 0, 0, 0, 0, 16, 0, 0, 0, 1, 0, 1, 0,
        96, 0, 0, 0, 0, 0, 0, 0, 1, 0, 0, 0, 2, 0] : List UInt8)[a]?).getD 0
      leasesLeft := none }
    states := [.new]
    backend := ⟨[], []⟩
    log := [] }
  published := []
  reaped := []

def flushBegun : List (Label flushCrew) :=
  [.publish 0, .kick, .advance, .advance, .pollWake, .advance, .take, .advance, .take, .advance, .advance, .pollRequest 0,
    .start]

def flushDone : List (Label flushCrew) :=
  [.finish 0 (), .pollRequest 0, .advance, .complete, .advance, .advance, .take, .advance, .advance, .advance, .advance,
    .pollWake]

/-- The device finds the chain of the sample or none. -/
def FindsFlush (s : State flushCrew) : Label flushCrew → Prop
  | .take => (pop flushResources (Run.pollQueue flushCrew.config s.control).1 s.driver.view).1 = .ok (some flushChain) ∨
      (pop flushResources (Run.pollQueue flushCrew.config s.control).1 s.driver.view).1 = .ok none
  | label => label.stops = false

instance (s : State flushCrew) : (label : Label flushCrew) → Decidable (FindsFlush s label)
  | .take => inferInstanceAs (Decidable (_ ∨ _))
  | .publish _ | .reap | .elsewhere _ | .host _ | .kick | .finish _ _ | .advance | .pollWake | .pollRequest _ | .start
  | .complete => isTrue rfl
  | .stopDown | .revoke _ | .stopWake => isFalse (by simp [FindsFlush, Label.stops])

theorem flushChain_apart {a : Nat} (writable : flushChain.Writable a) : ¬Abstract.InRings flushQueue.layout a := by
  obtain ⟨d, member, offered, inside⟩ := writable
  rcases List.mem_pair.mp member with rfl | rfl
  · cases offered
  · have low : 96 ≤ a := inside.1
    rintro (ring | ring)
    · have high : a < 40 := ring.2
      omega
    · have high : a < 68 := ring.2
      omega

theorem FindsFlush.orderly {s : State flushCrew} {label : Label flushCrew} (finds : FindsFlush s label) :
    Orderly flushQueue s label := by
  cases label with
  | take =>
      intro chain taken a writable
      rcases finds with some | none
      · cases some.symm.trans taken
        exact flushChain_apart writable
      · cases none.symm.trans taken
  | stopDown | revoke | stopWake => cases finds
  | _ => trivial

theorem flush_shipped : flushCrew.Shipped := .block _ _ _

theorem flush_others : ∀ i layout, i ≠ 0 → flushCrew.resources.queues[i]? = some layout →
    ∀ a, layout.Used a → ¬Abstract.InRings flushQueue.layout a := by
  intro i layout distinct found
  obtain ⟨i, rfl⟩ := Nat.exists_eq_succ_of_ne_zero distinct
  cases found

theorem device_refines_loop_flush :
    ∃ s, exec (step flushQueue 0) (initial flushStart) flushBegun = some s ∧ s.jobs.length = 1 ∧
      Accepts flushQueue 0 s := by
  have ends : (exec (step flushQueue 0) (initial flushStart) flushBegun).map (fun s => (s.control.pc, s.jobs.length)) =
      some (.select, 1) := by decide +kernel
  obtain ⟨s, run, last⟩ := Option.map_eq_some_iff.mp ends
  obtain ⟨pc, jobs⟩ := Prod.mk.inj last
  have finds : Execution.Along (step flushQueue 0) FindsFlush (initial flushStart) flushBegun :=
    @of_decide_eq_true _ (Execution.Along.decidable _ _) (by decide +kernel)
  refine ⟨s, run, jobs, ?_⟩
  exact (device_refines_loop flush_shipped ⟨rfl, rfl, rfl⟩
    rfl rfl (show flushQueue.Ready flushStart.view.guest from ⟨rfl, by decide +kernel⟩) (by decide) flush_others
    (by decide +kernel) (by decide +kernel) (finds.mono fun _ _ => FindsFlush.orderly) run (fun ok => by simp [pc])).2.1

theorem kicked_requests_completed_flush :
    ∃ s, exec (step flushQueue 0) (initial flushStart) (flushBegun ++ flushDone) = some s ∧ s.control.kicked 0 = 1 ∧
      s.control.kicked 0 ≤ (Abstract.completedOn 0 s.driver.view.log).length := by
  have ends : (exec (step flushQueue 0) (initial flushStart) (flushBegun ++ flushDone)).map
      (fun s => (s.control.pc, s.control.wake, s.control.polls, s.control.kicked 0)) =
      some (.awaiting, ⟨false, .waiting⟩, 3, 1) := by decide +kernel
  obtain ⟨s, run, last⟩ := Option.map_eq_some_iff.mp ends
  obtain ⟨pc, last⟩ := Prod.mk.inj last
  obtain ⟨wake, last⟩ := Prod.mk.inj last
  obtain ⟨polls, kicked⟩ := Prod.mk.inj last
  have finds : Execution.Along (step flushQueue 0) FindsFlush (initial flushStart) (flushBegun ++ flushDone) :=
    @of_decide_eq_true _ (Execution.Along.decidable _ _) (by decide +kernel)
  refine ⟨s, run, kicked, ?_⟩
  exact (kicked_requests_completed flush_shipped
    ⟨rfl, rfl, rfl⟩ rfl rfl (show flushQueue.Ready flushStart.view.guest from ⟨rfl, by decide +kernel⟩) (by decide)
    flush_others (by decide +kernel) (by decide +kernel) (finds.mono fun _ _ => FindsFlush.orderly) run
    (by omega) pc wake).2

end Libvirtio.Crew
