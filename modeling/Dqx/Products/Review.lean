import Dqx.Products.Lifecycle

/-! What a product that was approved shows while calls run at the same time. Every call writes by id
what follows from a row that it read before: an approval counts once, and approves what was reviewed,
if its write finds the row as it was read. -/

namespace Dqx.Products

open Lib

abbrev Products := Session Store Event Result

/-- A state that a statement meets, with the event of the statement. -/
abbrev Moment := Store × Event

def Event.isApprove : Event → Bool
  | .approve _ => true
  | _ => false

/-- The version that an approval has read. -/
def Event.readVersion : Event → Option Nat
  | .approve v => some v
  | _ => none

/-- What a statement does to the product and its members. -/
def Writes : Event → Store → Store → Prop
  | .read, s, s' => s' = s
  | .submit, s, s' => s'.product.status = .pendingApproval ∧ s'.product.version = s.product.version
  | .approve v, s, s' =>
    s'.product.status = .approved ∧ s'.product.version = v + 1 ∧ s'.members = s.members
  | .close, s, s' => s'.product.status ≠ .approved ∧ s'.product.version = s.product.version
  | .update, s, s' => (s'.product.status = s.product.status ∨ s'.product.status = .draft) ∧
      s'.product.version = s.product.version ∧ s'.members = s.members
  | .memberWrite, s, s' => s'.product = s.product
  | .flip, s, s' => s'.product.status = .draft ∧ s'.product.version = s.product.version

/-- What a statement does, and how its call goes on: an approval comes right after the read of the
version, a draft right after a write of the members, and only an approval replies as one. -/
structure Effect (event : Event) (s s' : Store) (rest : ProductCall) : Prop where
  writes : Writes event s s'
  approves : ∀ v, rest.nextEvent = some (.approve v) → event = .read ∧ v = s.product.version
  flips : event = .memberWrite → s'.members = s.members ∨ rest.nextEvent = some .flip
  replies : (rest.result?.any isApproval) = event.isApprove

/-! ### The calls -/

theorem obeys_fail (error : Error) : (fail error).Obeys Effect := trivial

theorem obeys_writeProduct {event : Event} {write : DataProduct → DataProduct} {reply : Reply}
    (hwrites : ∀ s : Store, Writes event s { s with product := write s.product })
    (hevent : event ≠ .memberWrite) (hreply : isApproval (.ok reply) = event.isApprove) :
    (writeProduct event write reply).Obeys Effect := by
  intro s
  exact ⟨⟨hwrites s, nofun, fun h => absurd h hevent, hreply⟩, trivial⟩

/-- The call that follows a read in the state `s`: no reply of an approval, and no approval of another
version. -/
def Follows (s : Store) (rest : ProductCall) : Prop :=
  (∀ v, rest.nextEvent = some (.approve v) → v = s.product.version) ∧
    (rest.result?.any isApproval) = false ∧ rest.Obeys Effect

theorem obeys_read {next : Store → ProductCall} (h : ∀ s, Follows s (next s)) :
    (Call.stmt .read id next).Obeys Effect := by
  intro s
  obtain ⟨happroves, hreplies, hobeys⟩ := h s
  exact ⟨⟨rfl, fun v hv => ⟨rfl, happroves v hv⟩, nofun, hreplies⟩, hobeys⟩

theorem follows_fail (s : Store) (error : Error) : Follows s (fail error) := ⟨nofun, rfl, trivial⟩

theorem follows_read {s : Store} {next : Store → ProductCall} (h : ∀ t, Follows t (next t)) :
    Follows s (.stmt .read id next) := ⟨nofun, rfl, obeys_read h⟩

theorem follows_write {s : Store} {event : Event} {write : DataProduct → DataProduct} {reply : Reply}
    (hwrites : ∀ s : Store, Writes event s { s with product := write s.product })
    (hevent : event ≠ .memberWrite) (hreply : isApproval (.ok reply) = event.isApprove)
    (hversion : ∀ v, event = .approve v → v = s.product.version) :
    Follows s (writeProduct event write reply) :=
  ⟨fun v hv => hversion v (Option.some.inj hv), rfl, obeys_writeProduct hwrites hevent hreply⟩

theorem obeys_submit (productId user : String) (rationale : Option String) :
    (submit productId user rationale).Obeys Effect := by
  apply obeys_read
  intro s
  dsimp only
  split
  · exact follows_fail s _
  · exact follows_write (fun _ => ⟨rfl, rfl⟩) nofun rfl nofun

theorem obeys_whenPending {verb productId : String} {next : DataProduct → ProductCall}
    (h : ∀ s : Store, Follows s (next s.product)) : (whenPending verb productId next).Obeys Effect := by
  apply obeys_read
  intro s
  dsimp only
  split
  · exact h s
  · exact follows_fail s _

theorem obeys_approve (productId user : String) (rationale : Option String) :
    (approve productId user rationale).Obeys Effect :=
  obeys_whenPending fun _ =>
    follows_write (fun _ => ⟨rfl, rfl, rfl⟩) nofun rfl fun _ hv => (Event.approve.inj hv).symm

theorem obeys_reject (productId user : String) (rationale : Option String) :
    (reject productId user rationale).Obeys Effect :=
  obeys_whenPending fun _ => follows_write (fun _ => ⟨nofun, rfl⟩) nofun rfl nofun

theorem obeys_revert (productId user : String) : (revert productId user).Obeys Effect :=
  obeys_whenPending fun _ => follows_write (fun _ => ⟨nofun, rfl⟩) nofun rfl nofun

theorem follows_writeUpdates (s : Store)
    (canonicalizeOwner : Option String → Option String × Option String) (updates : Updates)
    (user : String) (product : DataProduct) :
    Follows s (writeUpdates canonicalizeOwner updates user product) := by
  apply follows_write
  · intro t
    refine ⟨?_, rfl, rfl⟩
    show (if _ then _ else _) = _ ∨ (if _ then _ else _) = _
    split
    · exact .inl rfl
    · exact .inr rfl
  · nofun
  · rfl
  · nofun

theorem obeys_update (canonicalizeOwner : Option String → Option String × Option String)
    (updates : Updates) (user : String) : (update canonicalizeOwner updates user).Obeys Effect := by
  apply obeys_read
  intro s
  have hwrite := fun t => follows_writeUpdates t canonicalizeOwner updates user s.product
  dsimp only
  split
  · exact hwrite s
  · split
    · exact follows_fail s _
    · split
      · exact hwrite s
      · apply follows_read
        intro t
        split
        · exact follows_fail t _
        · exact hwrite t

theorem obeys_flipToDraft (user : String) {reply : Reply} (hreply : isApproval (.ok reply) = false) :
    (flipToDraft user reply).Obeys Effect :=
  obeys_writeProduct (fun _ => ⟨rfl, rfl⟩) nofun hreply

theorem obeys_repin (memberId bindingId user : String) (pinnedVersion : Option Nat) :
    (repin memberId bindingId user pinnedVersion).Obeys Effect := by
  intro s
  exact ⟨⟨rfl, nofun, fun _ => .inr rfl, rfl⟩, obeys_flipToDraft user rfl⟩

theorem follows_repin (s : Store) (memberId bindingId user : String) (pinnedVersion : Option Nat) :
    Follows s (repin memberId bindingId user pinnedVersion) :=
  ⟨nofun, rfl, obeys_repin memberId bindingId user pinnedVersion⟩

theorem follows_insertMember (s : Store) (member : Member) (user : String) :
    Follows s (insertMember member user) := by
  refine ⟨nofun, rfl, fun t => ?_⟩
  cases hfails : t.unique && (t.memberOf member.bindingId).isSome with
  | true =>
    simp only [hfails, if_true]
    refine ⟨⟨rfl, nofun, fun _ => .inl rfl, rfl⟩, obeys_read fun u => ?_⟩
    split
    · exact follows_repin u _ _ _ _
    · exact follows_fail u _
  | false =>
    simp only [hfails, Bool.false_eq_true, if_false]
    exact ⟨⟨rfl, nofun, fun _ => .inr rfl, rfl⟩, obeys_flipToDraft user rfl⟩

theorem obeys_addMember (newId bindingId : String) (pinnedVersion : Option Nat) (user : String) :
    (addMember newId bindingId pinnedVersion user).Obeys Effect := by
  apply obeys_read
  intro s
  apply follows_read
  intro t
  dsimp only
  split
  · exact follows_repin t _ _ _ _
  · apply follows_read
    intro u
    split
    · exact follows_fail u _
    · split
      · exact follows_fail u _
      · split
        · exact follows_insertMember u _ _
        · exact follows_read fun v => follows_insertMember v _ _

theorem obeys_removeMember (memberId user : String) :
    (removeMember memberId user).Obeys Effect := by
  apply obeys_read
  intro s
  apply follows_read
  intro t
  split
  · refine ⟨nofun, rfl, fun u => ⟨⟨rfl, nofun, fun _ => .inr rfl, rfl⟩, ?_⟩⟩
    exact obeys_flipToDraft user rfl
  · exact follows_fail t _

theorem Operation.obeys (operation : Operation) : operation.call.Obeys Effect := by
  cases operation with
  | submit productId user rationale => exact obeys_submit productId user rationale
  | approve productId user rationale => exact obeys_approve productId user rationale
  | reject productId user rationale => exact obeys_reject productId user rationale
  | revert productId user => exact obeys_revert productId user
  | update canonicalizeOwner updates user => exact obeys_update canonicalizeOwner updates user
  | addMember newId bindingId pinnedVersion user =>
    exact obeys_addMember newId bindingId pinnedVersion user
  | removeMember memberId user => exact obeys_removeMember memberId user

theorem Operation.nextEvent (operation : Operation) : operation.call.nextEvent = some .read := by
  cases operation <;> rfl

/-! ### Runs -/

/-- No call is between a write of the members and the draft that follows it. -/
def Settled (t : Products) : Prop := ∀ call ∈ t.calls, call.nextEvent ≠ some .flip

instance (t : Products) : Decidable (Settled t) :=
  inferInstanceAs (Decidable (∀ call ∈ t.calls, call.nextEvent ≠ some .flip))

/-- The product had these members while it was `pending_approval`, at a moment since its last submit:
one of the run, or one before the run, for the members that `prior` accepts. -/
def Reviewed (prior : List Member → Prop) (moments : List Moment) (members : List Member) : Prop :=
  (∃ before moment after, moments = before ++ moment :: after ∧
    moment.1.product.status = .pendingApproval ∧ moment.1.members = members ∧
      ∀ later ∈ moment :: after, later.2 ≠ .submit) ∨
    prior members ∧ ∀ moment ∈ moments, moment.2 ≠ .submit

/-- An approval finds the product `pending_approval`. -/
def FindsPending (moment : Moment) : Prop :=
  moment.2.isApprove = true → moment.1.product.status = .pendingApproval

instance (moment : Moment) : Decidable (FindsPending moment) := inferInstanceAs (Decidable (_ → _))

/-- An approval finds the product at the version that its call has read. -/
def FindsVersion (moment : Moment) : Prop :=
  ∀ v ∈ moment.2.readVersion, moment.1.product.version = v

instance (moment : Moment) : Decidable (FindsVersion moment) :=
  inferInstanceAs (Decidable (∀ v ∈ moment.2.readVersion, moment.1.product.version = v))

theorem Reviewed.append {prior : List Member → Prop} {moments : List Moment} {members : List Member}
    (h : Reviewed prior moments members) {moment : Moment} (hevent : moment.2 ≠ .submit) :
    Reviewed prior (moments ++ [moment]) members := by
  rcases h with ⟨before, past, after, rfl, hpending, hmembers, hafter⟩ | ⟨hprior, hmoments⟩
  · refine .inl ⟨before, past, after ++ [moment], by simp, hpending, hmembers, ?_⟩
    rw [← List.cons_append]
    exact List.forall_mem_append.mpr ⟨hafter, List.forall_mem_singleton.mpr hevent⟩
  · exact .inr ⟨hprior, List.forall_mem_append.mpr ⟨hmoments, List.forall_mem_singleton.mpr hevent⟩⟩

/-- A state that is settled after another call's step was settled before it. -/
theorem settled_of_set {s t : Products} {i : Nat} {call rest : ProductCall} {event : Event}
    (hcall : s.calls[i]? = some call) (hnext : call.nextEvent = some event) (hevent : event ≠ .flip)
    (ht : t.calls = s.calls.set i rest) (hsettled : Settled t) : Settled s := by
  intro other hother
  obtain ⟨j, hj⟩ := List.mem_iff_getElem?.mp hother
  by_cases hij : i = j
  · subst hij
    obtain rfl := Option.some.inj (hcall.symm.trans hj)
    rw [hnext]
    exact fun h => hevent (Option.some.inj h)
  · apply hsettled other
    rw [ht]
    exact List.mem_of_getElem? ((List.getElem?_set_ne hij).trans hj)

/-- What a step preserves of the members that were reviewed. -/
theorem reviewed_step {prior : List Member → Prop} {moments : List Moment} {s t : Products}
    {moment : Moment} (hstep : Session.Step s moment t) (hcalls : ∀ call ∈ s.calls, call.Obeys Effect)
    (hreviewed : Settled s → s.shared.product.status = .approved →
      Reviewed prior moments s.shared.members)
    (hpending : FindsPending moment) (hsettled : Settled t)
    (happroved : t.shared.product.status = .approved) :
    Reviewed prior (moments ++ [moment]) t.shared.members := by
  obtain ⟨i, call, rest, hcall, hnext, hstate, ht, heffect, -⟩ := hstep.obeys hcalls
  obtain ⟨state, event⟩ := moment
  obtain rfl : state = s.shared := hstate
  have hbefore : event ≠ .flip → Settled s :=
    fun hevent => settled_of_set hcall hnext hevent ht hsettled
  have hkept : event ≠ .flip → event ≠ .submit → t.shared.members = s.shared.members →
      s.shared.product.status = .approved →
        Reviewed prior (moments ++ [(s.shared, event)]) t.shared.members := by
    intro hflip hsubmit hmembers hstatus
    rw [hmembers]
    exact (hreviewed (hbefore hflip) hstatus).append hsubmit
  have hwrites := heffect.writes
  cases event with
  | read =>
    have hsame : t.shared = s.shared := hwrites
    exact hkept nofun nofun (by rw [hsame]) (by rw [← hsame, happroved])
  | submit => exact absurd (happroved.symm.trans hwrites.1) nofun
  | approve v =>
    refine .inl ⟨moments, _, [], rfl, hpending rfl, hwrites.2.2.symm, ?_⟩
    exact List.forall_mem_singleton.mpr nofun
  | close => exact absurd happroved hwrites.1
  | update =>
    obtain ⟨hsame | hdraft, -, hmembers⟩ := hwrites
    · exact hkept nofun nofun hmembers (hsame.symm.trans happroved)
    · exact absurd (happroved.symm.trans hdraft) nofun
  | memberWrite =>
    have hproduct : t.shared.product = s.shared.product := hwrites
    rcases heffect.flips rfl with hmembers | hflip
    · exact hkept nofun nofun hmembers (by rw [← hproduct, happroved])
    · have hrest : rest ∈ t.calls := by
        rw [ht]
        exact List.mem_set (List.getElem?_eq_some_iff.mp hcall).1 rest
      exact absurd hflip (hsettled rest hrest)
  | flip => exact absurd (happroved.symm.trans hwrites.1) nofun

/-- How many approvals have returned. -/
def approvals (t : Products) : Nat := t.returned isApproval

/-- The counts of a run that began at version `initial`: every version that a call is about to approve
is in the range of those approved so far, strictly once an approval has missed another one. -/
structure Counted (initial : Nat) (moments : List Moment) (t : Products) : Prop where
  read : ∀ call ∈ t.calls, ∀ v, call.nextEvent = some (.approve v) → v ≤ initial + approvals t
  version : (∀ moment ∈ moments, FindsVersion moment) → t.shared.product.version = initial + approvals t
  missed : (¬∀ moment ∈ moments, FindsVersion moment) →
    t.shared.product.version < initial + approvals t ∧
      ∀ call ∈ t.calls, ∀ v, call.nextEvent = some (.approve v) → v < initial + approvals t

theorem version_of_not_approve {event : Event} {s t : Store} (h : Writes event s t)
    (hevent : event.isApprove = false) : t.product.version = s.product.version := by
  cases event with
  | read =>
    have hsame : t = s := h
    rw [hsame]
  | submit => exact h.2
  | approve v => cases hevent
  | close => exact h.2
  | update => exact h.2.1
  | memberWrite =>
    have hproduct : t.product = s.product := h
    rw [hproduct]
  | flip => exact h.2

theorem Counted.version_le {initial : Nat} {moments : List Moment} {t : Products}
    (h : Counted initial moments t) : t.shared.product.version ≤ initial + approvals t := by
  by_cases hfinds : ∀ moment ∈ moments, FindsVersion moment
  · exact (h.version hfinds).le
  · exact (h.missed hfinds).1.le

theorem finds_append {P : Moment → Prop} {moments : List Moment} {moment : Moment} :
    (∀ m ∈ moments ++ [moment], P m) ↔ (∀ m ∈ moments, P m) ∧ P moment := by
  rw [List.forall_mem_append, List.forall_mem_singleton]

section CountedStep

variable {initial : Nat} {moments : List Moment} {s t : Products} {event : Event} {rest : ProductCall}

/-- A step that approves nothing keeps the counts. -/
theorem Counted.step_other (h : Counted initial moments s)
    (heffect : Effect event s.shared t.shared rest) (hevent : event.isApprove = false)
    (hcount : approvals t = approvals s)
    (hmem : ∀ other ∈ t.calls, other ∈ s.calls ∨ other = rest) :
    Counted initial (moments ++ [(s.shared, event)]) t := by
  have hversion := version_of_not_approve heffect.writes hevent
  have hfinds : FindsVersion (s.shared, event) := by
    intro v hv
    cases event with
    | approve w => cases hevent
    | _ => cases hv
  have hopen : ∀ other ∈ t.calls, ∀ v, other.nextEvent = some (.approve v) →
      other ∈ s.calls ∨ v = s.shared.product.version := by
    intro other hother v hv
    rcases hmem other hother with hold | rfl
    · exact .inl hold
    · exact .inr (heffect.approves v hv).2
  constructor
  · intro other hother v hv
    rw [hcount]
    rcases hopen other hother v hv with hold | rfl
    · exact h.read other hold v hv
    · exact h.version_le
  · intro hall
    rw [hversion, hcount, h.version (finds_append.mp hall).1]
  · intro hmissed
    obtain ⟨hlt, hreads⟩ := h.missed fun hall => hmissed (finds_append.mpr ⟨hall, hfinds⟩)
    rw [hversion, hcount]
    refine ⟨hlt, fun other hother v hv => ?_⟩
    rcases hopen other hother v hv with hold | rfl
    · exact hreads other hold v hv
    · exact hlt

/-- An approval adds one to the counts, and as much to the version if it finds the one it has read. -/
theorem Counted.step_approve (h : Counted initial moments s) {v : Nat}
    (heffect : Effect (.approve v) s.shared t.shared rest)
    (hread : v ≤ initial + approvals s)
    (hmissed : (¬∀ moment ∈ moments, FindsVersion moment) → v < initial + approvals s)
    (hcount : approvals t = approvals s + 1)
    (hmem : ∀ other ∈ t.calls, other ∈ s.calls ∨ other = rest) :
    Counted initial (moments ++ [(s.shared, .approve v)]) t := by
  have hversion : t.shared.product.version = v + 1 := heffect.writes.2.1
  have hopen : ∀ other ∈ t.calls, ∀ w, other.nextEvent = some (.approve w) →
      w ≤ initial + approvals s := by
    intro other hother w hw
    rcases hmem other hother with hold | rfl
    · exact h.read other hold w hw
    · exact absurd (heffect.approves w hw).1 nofun
  constructor
  · intro other hother w hw
    have hle := hopen other hother w hw
    omega
  · intro hall
    obtain ⟨hbefore, hfinds⟩ := finds_append.mp hall
    have hsame : s.shared.product.version = v := hfinds v rfl
    have hbase := h.version hbefore
    omega
  · intro hnot
    have hlt : v < initial + approvals s := by
      by_cases hbefore : ∀ moment ∈ moments, FindsVersion moment
      · have hbase := h.version hbefore
        have hother : s.shared.product.version ≠ v := by
          intro hsame
          refine hnot (finds_append.mpr ⟨hbefore, fun w hw => ?_⟩)
          rw [hsame, Option.some.inj hw]
        omega
      · exact hmissed hbefore
    refine ⟨by omega, fun other hother w hw => ?_⟩
    have hle := hopen other hother w hw
    omega

end CountedStep

theorem counted_step {initial : Nat} {moments : List Moment} {s t : Products} {moment : Moment}
    (hstep : Session.Step s moment t) (hcalls : ∀ call ∈ s.calls, call.Obeys Effect)
    (hcounted : Counted initial moments s) : Counted initial (moments ++ [moment]) t := by
  obtain ⟨i, call, rest, hcall, hnext, hstate, ht, heffect, -⟩ := hstep.obeys hcalls
  obtain ⟨state, event⟩ := moment
  obtain rfl : state = s.shared := hstate
  have hcount : approvals t = approvals s + event.isApprove.toNat := by
    rw [approvals, Session.returned_set isApproval hcall hnext ht, heffect.replies]
    rfl
  have hmem : ∀ other ∈ t.calls, other ∈ s.calls ∨ other = rest := by
    rw [ht]
    exact fun other hother => List.mem_or_eq_of_mem_set hother
  cases hevent : event.isApprove with
  | false =>
    rw [hevent] at hcount
    exact hcounted.step_other heffect hevent hcount hmem
  | true =>
    cases event with
    | approve v =>
      have hin := List.mem_of_getElem? hcall
      exact hcounted.step_approve heffect (hcounted.read call hin v hnext)
        (fun hmissed => (hcounted.missed hmissed).2 call hin v hnext) hcount hmem
    | _ => cases hevent

/-- In every state that concurrent calls reach from a product that shows no unreviewed members: if
every approval finds the product still `pending_approval`, an approved product has members that it had
while pending since its last submit; and the version has grown by the number of approvals exactly when
every approval finds the version that its call has read. -/
theorem approvals_reviewed_and_counted {prior : List Member → Prop} {s t : Products}
    {moments : List Moment}
    (hcalls : ∀ call ∈ s.calls, ∃ operation : Operation, call = operation.call)
    (hprior : s.shared.product.status = .approved → prior s.shared.members)
    (path : Path Session.Step s moments t) :
    ((∀ moment ∈ moments, FindsPending moment) → Settled t →
      t.shared.product.status = .approved → Reviewed prior moments t.shared.members) ∧
    (t.shared.product.version = s.shared.product.version + approvals t ↔
      ∀ moment ∈ moments, FindsVersion moment) := by
  have hnext : ∀ call ∈ s.calls, call.nextEvent = some .read := by
    intro call hcall
    obtain ⟨operation, rfl⟩ := hcalls call hcall
    exact operation.nextEvent
  have hobeys : ∀ call ∈ s.calls, call.Obeys Effect := by
    intro call hcall
    obtain ⟨operation, rfl⟩ := hcalls call hcall
    exact operation.obeys
  have hnone : approvals s = 0 := by
    rw [approvals, Session.returned, List.countP_eq_zero]
    intro call hcall
    obtain ⟨operation, rfl⟩ := hcalls call hcall
    cases operation <;> exact Bool.false_ne_true
  have hcounted : Counted s.shared.product.version [] s := by
    constructor
    · intro call hcall v hv
      rw [hnext call hcall] at hv
      cases hv
    · intro _
      rw [hnone]
      rfl
    · exact fun hnot => absurd (List.forall_mem_nil _) hnot
  have hrun := path.trace_invariant
    (P := fun moments t => (∀ call ∈ t.calls, call.Obeys Effect) ∧
      Counted s.shared.product.version moments t ∧
      ((∀ moment ∈ moments, FindsPending moment) → Settled t →
        t.shared.product.status = .approved → Reviewed prior moments t.shared.members))
    ⟨hobeys, hcounted, fun _ _ happroved => .inr ⟨hprior happroved, List.forall_mem_nil _⟩⟩ ?_
  · obtain ⟨-, hcounted, hreviewed⟩ := hrun
    refine ⟨hreviewed, fun hversion => ?_, hcounted.version⟩
    by_contra hnot
    exact (hcounted.missed hnot).1.ne hversion
  · rintro moments s moment t ⟨hobeys, hcounted, hreviewed⟩ hstep
    refine ⟨hstep.calls_obey hobeys, counted_step hstep hobeys hcounted, fun hall hsettled => ?_⟩
    obtain ⟨hbefore, hpending⟩ := finds_append.mp hall
    exact reviewed_step hstep hobeys (hreviewed hbefore) hpending hsettled

/-- A product at version 0 without members, and a monitored table that may join it. -/
def emptyProduct (status : Status) : Store where
  product := ⟨"p", none, none, none, none, none, .dqOnly, none, status, 0, none, none, "a"⟩
  members := []
  otherNames := []
  bindings _ := some ⟨"c.s.t", .approved, 1⟩
  autoUpgrade := true
  unique := true

def concurrent (status : Status) (operations : List Operation) : Products :=
  ⟨emptyProduct status, operations.map Operation.call⟩

def addTable : Operation := .addMember "m" "b" (some 1) "a"

/-- A member is added, and the product submitted and approved, one call after another. -/
def inOrder : List Moment × Products :=
  (concurrent .draft [addTable, .submit "p" "a" none, .approve "p" "b" none]).run
    [0, 0, 0, 0, 0, 1, 1, 2, 2]

theorem approvals_reviewed_and_counted_inOrder :
    Reviewed (fun _ => False) inOrder.1 [⟨"m", "b", some 1⟩] ∧
      inOrder.2.shared.product.version = 1 := by
  have hcalls : ∀ call ∈ (concurrent .draft [addTable, .submit "p" "a" none,
      .approve "p" "b" none]).calls, ∃ operation : Operation, call = operation.call := by
    intro call hcall
    obtain ⟨operation, -, rfl⟩ := List.mem_map.mp hcall
    exact ⟨operation, rfl⟩
  obtain ⟨hreviewed, hversion⟩ := @approvals_reviewed_and_counted (fun _ => False) _ _ _ hcalls
    nofun (Session.path_run _ [0, 0, 0, 0, 0, 1, 1, 2, 2])
  exact ⟨hreviewed (by decide) (by decide) (by decide), hversion.mpr (by decide)⟩

/-- An approval has read the product, which is withdrawn and edited before it is written. -/
def withdrawn : List Moment × Products :=
  (concurrent .pendingApproval [.approve "p" "b" none, .revert "p" "a", addTable]).run
    [0, 1, 1, 2, 2, 2, 2, 2, 0]

/-- Two approvals at once. -/
def approvedTwice : List Moment × Products :=
  (concurrent .pendingApproval [.approve "p" "b" none, .approve "p" "c" none]).run [0, 1, 0, 1]

theorem no_review {moments : List Moment} {members : List Member}
    (h : ∀ moment ∈ moments, moment.1.product.status = .pendingApproval →
      moment.1.members ≠ members) : ¬Reviewed (fun _ => False) moments members := by
  rintro (⟨before, moment, after, rfl, hpending, hmembers, -⟩ | ⟨hprior, -⟩)
  · exact h moment (by simp) hpending hmembers
  · exact hprior

/-- After all calls have returned, a product is approved with a member that was never reviewed, or is
at a version below the number of its approvals. -/
theorem approvals_unreviewed_and_lost :
    (Path Session.Step (concurrent .pendingApproval [.approve "p" "b" none, .revert "p" "a", addTable])
        withdrawn.1 withdrawn.2 ∧
      (∀ call ∈ withdrawn.2.calls, call.result?.isSome = true) ∧
      withdrawn.2.shared.product.status = .approved ∧
      ¬Reviewed (fun _ => False) withdrawn.1 withdrawn.2.shared.members) ∧
    Path Session.Step (concurrent .pendingApproval [.approve "p" "b" none, .approve "p" "c" none])
        approvedTwice.1 approvedTwice.2 ∧
      (∀ call ∈ approvedTwice.2.calls, call.result?.isSome = true) ∧
      approvals approvedTwice.2 = 2 ∧ approvedTwice.2.shared.product.version = 1 := by
  refine ⟨⟨Session.path_run _ _, by decide, by decide, no_review ?_⟩, Session.path_run _ _, by decide,
    by decide, by decide⟩
  decide

end Dqx.Products
