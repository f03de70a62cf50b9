import AikoIsland.Calls

/-!
# What a wake plans for each row

The loop of `plan_deliveries` with the exceptions it may meet: the three
conversions of a stored string into its closed set raise `ValueError`, and the
handler around the body of the loop turns that into a skip. What the body had
appended by then stays appended.

The loop ends normally on every list of rows, and splits it: the deliveries are
to the rows it chose, in their order, each by the transport and as the kind that the
columns of its row name, and the skips name all the others. An end of a call goes to
no alert token of APNs, and to none of its tokens while the gate is closed.
-/
namespace AikoIsland.DeliveryPlans
open Tables Calls

inductive PyExn where
  | valueError
  | assertionError
  deriving DecidableEq, Repr

/-- The two lists that the loop appends to. -/
structure Plan where
  deliveries : List PushDelivery
  skips : List (String × String)
  deriving DecidableEq, Repr

abbrev Planner (α : Type) := ExceptT PyExn (StateM Plan) α

def convert {α : Type} (ofText : String → Option α) (s : String) : Planner α :=
  match ofText s with
  | some a => pure a
  | none => throw .valueError

def skip (row : DeviceToken) (reason : String) : Planner Unit :=
  modify fun plan => { plan with skips := plan.skips ++ [(row.id, reason)] }

def deliver (delivery : PushDelivery) : Planner Unit :=
  modify fun plan => { plan with deliveries := plan.deliveries ++ [delivery] }

def observe (row : DeviceToken) : Observation := ⟨row.id, row.token, row.updatedAt⟩

def deliverApns (row : DeviceToken) (kind : TokenKind) : Planner Unit := do
  let environment ← convert ApnsEnvironment.ofText row.apnsEnvironment
  deliver (.apns (observe row) environment kind)

section
variable (wake : WakeKind) (configured : List Platform) (endWakeGateOpen : Bool)

/-- The body of the loop inside its `try`. -/
def tryRow (row : DeviceToken) : Planner Unit := do
  let platform ← convert Platform.ofText row.platform
  let kind ← convert TokenKind.ofText row.tokenKind
  if platform ∉ configured then skip row "transport_not_configured"
  else
    match platform with
    | .apns =>
        match kind, wake with
        | .voip, .callInvite => deliverApns row kind
        | .alert, .callInvite => deliverApns row kind
        | .voip, .callEnd =>
            if endWakeGateOpen then deliverApns row kind
            else skip row "end_wake_gated_pending_4278"
        | .alert, .callEnd => skip row "end_wake_needs_voip"
    | .fcm => deliver (.fcm (observe row))

def planOne (row : DeviceToken) : Planner Unit :=
  tryCatch (tryRow wake configured endWakeGateOpen row) fun e =>
    if e = .valueError then skip row "unroutable_row" else throw e

/-- `plan_deliveries`. -/
def planAll (rows : List DeviceToken) : Except PyExn Unit × Plan :=
  (rows.forM (planOne wake configured endWakeGateOpen)).run.run ⟨[], []⟩

/-- The skips of the rows that the table refuses. -/
def planSkips (rows : List DeviceToken) : List (String × String) :=
  rows.filterMap fun row =>
    match planRow wake configured endWakeGateOpen row with
    | .ok _ => none
    | .error reason => some (row.id, reason)

/-- Whether a row is sent to, as the pure form of the table has it. -/
def sent (row : DeviceToken) : Bool := (planRow wake configured endWakeGateOpen row).isOk

/-- The delivery is to the row's own token, by the transport and as the kind that its columns
name. -/
def Suits (row : DeviceToken) : PushDelivery → Prop
  | .apns o environment kind => o = observe row ∧ row.platform = "apns" ∧
      row.tokenKind = kind.value ∧ row.apnsEnvironment = environment.value
  | .fcm o => o = observe row ∧ row.platform = "fcm"

def Plan.record (plan : Plan) (row : DeviceToken) : Except String PushDelivery → Plan
  | .ok delivery => { plan with deliveries := plan.deliveries ++ [delivery] }
  | .error reason => { plan with skips := plan.skips ++ [(row.id, reason)] }

end

section
variable {s : String}

theorem platform_eq {platform : Platform} (h : Platform.ofText s = some platform) :
    s = platform.value := by
  unfold Platform.ofText at h
  split_ifs at h with happns hfcm
  · cases h
    exact happns
  · cases h
    exact hfcm

theorem environment_eq {environment : ApnsEnvironment}
    (h : ApnsEnvironment.ofText s = some environment) : s = environment.value := by
  unfold ApnsEnvironment.ofText at h
  split_ifs at h with hsandbox hproduction
  · cases h
    exact hsandbox
  · cases h
    exact hproduction

theorem tokenKind_eq {kind : TokenKind} (h : TokenKind.ofText s = some kind) :
    s = kind.value := by
  unfold TokenKind.ofText at h
  split_ifs at h with halert hvoip
  · cases h
    exact halert
  · cases h
    exact hvoip

end

section
variable {wake : WakeKind} {configured : List Platform} {endWakeGateOpen : Bool}

theorem run_convert_bind {α β : Type} {ofText : String → Option α} {s : String}
    {k : α → Planner β} {plan : Plan} :
    (convert ofText s >>= k).run.run plan =
      match ofText s with
      | some a => (k a).run.run plan
      | none => (.error .valueError, plan) := by
  cases h : ofText s with
  | some a =>
      simp only [convert, h]
      rfl
  | none =>
      simp only [convert, h]
      rfl

theorem run_deliverApns {row : DeviceToken} {kind : TokenKind} {plan : Plan} :
    (deliverApns row kind).run.run plan =
      match ApnsEnvironment.ofText row.apnsEnvironment with
      | some environment =>
          (.ok (), { plan with deliveries := plan.deliveries ++
            [.apns (observe row) environment kind] })
      | none => (.error .valueError, plan) := by
  rw [deliverApns, run_convert_bind]
  cases ApnsEnvironment.ofText row.apnsEnvironment <;> rfl

theorem run_bind_ok {α β : Type} {r : Planner α} {k : α → Planner β} {plan plan' : Plan} {a : α}
    (h : r.run.run plan = (.ok a, plan')) : (r >>= k).run.run plan = (k a).run.run plan' := by
  unfold ExceptT.run StateT.run at h ⊢
  simp only [bind, ExceptT.bind, ExceptT.mk, StateT.bind]
  rw [h]
  rfl

theorem run_tryCatch {r : Planner Unit} {handler : PyExn → Planner Unit} {plan : Plan} :
    (tryCatch r handler).run.run plan =
      match r.run.run plan with
      | (.ok a, plan) => (.ok a, plan)
      | (.error e, plan) => (handler e).run.run plan := by
  unfold ExceptT.run StateT.run
  simp only [tryCatch, tryCatchThe, MonadExceptOf.tryCatch, ExceptT.tryCatch, ExceptT.mk, bind,
    StateT.bind]
  cases r plan with
  | mk result plan => cases result <;> rfl

/-- The body of the loop records what the table says of the row, or a conversion raises in it
before anything was appended. -/
theorem run_tryRow (row : DeviceToken) (plan : Plan) :
    (tryRow wake configured endWakeGateOpen row).run.run plan =
        (.ok (), plan.record row (planRow wake configured endWakeGateOpen row)) ∨
      planRow wake configured endWakeGateOpen row = .error "unroutable_row" ∧
        (tryRow wake configured endWakeGateOpen row).run.run plan = (.error .valueError, plan) := by
  unfold tryRow planRow
  rw [run_convert_bind]
  cases Platform.ofText row.platform with
  | none => exact Or.inr ⟨rfl, rfl⟩
  | some platform =>
      dsimp only
      rw [run_convert_bind]
      cases TokenKind.ofText row.tokenKind with
      | none => exact Or.inr ⟨rfl, rfl⟩
      | some kind =>
          dsimp only
          by_cases hconfigured : platform ∉ configured
          · rw [if_pos hconfigured, if_pos hconfigured]
            exact Or.inl rfl
          · rw [if_neg hconfigured, if_neg hconfigured]
            cases platform with
            | fcm => exact Or.inl rfl
            | apns =>
                have happns : (deliverApns row kind).run.run plan =
                      (.ok (), plan.record row
                        (match ApnsEnvironment.ofText row.apnsEnvironment with
                          | some environment => .ok (.apns (observe row) environment kind)
                          | none => .error "unroutable_row")) ∨
                    ApnsEnvironment.ofText row.apnsEnvironment = none ∧
                      (deliverApns row kind).run.run plan = (.error .valueError, plan) := by
                  rw [run_deliverApns]
                  cases ApnsEnvironment.ofText row.apnsEnvironment with
                  | some environment => exact Or.inl rfl
                  | none => exact Or.inr ⟨rfl, rfl⟩
                cases kind <;> cases wake <;> cases endWakeGateOpen
                all_goals
                  simp only [reduceCtorEq, Bool.true_eq_false, Bool.false_eq_true, and_true,
                    and_false, and_self, if_true, if_false]
                any_goals exact Or.inl rfl
                all_goals
                  rcases happns with hsent | ⟨hnone, hraised⟩
                  · exact Or.inl hsent
                  · exact Or.inr ⟨by rw [hnone], hraised⟩

/-- One turn of the loop records what the table says of the row, and does not raise. -/
theorem run_planOne (row : DeviceToken) (plan : Plan) :
    (planOne wake configured endWakeGateOpen row).run.run plan =
      (.ok (), plan.record row (planRow wake configured endWakeGateOpen row)) := by
  rw [planOne, run_tryCatch]
  rcases run_tryRow row plan with hrun | ⟨hplan, hraised⟩
  · rw [hrun]
  · rw [hraised, hplan]
    rfl

/-- The loop ends normally, having recorded every row. -/
theorem run_forM_planOne (rows : List DeviceToken) (plan : Plan) :
    (rows.forM (planOne wake configured endWakeGateOpen)).run.run plan =
      (.ok (), rows.foldl (fun plan row =>
        plan.record row (planRow wake configured endWakeGateOpen row)) plan) := by
  induction rows generalizing plan with
  | nil => rfl
  | cons row rows ih =>
      have hstep : ((row :: rows).forM (planOne wake configured endWakeGateOpen)).run.run plan =
          (rows.forM (planOne wake configured endWakeGateOpen)).run.run
            (plan.record row (planRow wake configured endWakeGateOpen row)) := by
        change (planOne wake configured endWakeGateOpen row >>= fun _ =>
          rows.forM (planOne wake configured endWakeGateOpen)).run.run plan = _
        rw [run_bind_ok (run_planOne row plan)]
      rw [hstep, ih, List.foldl_cons]

/-- What the records of the rows add up to. -/
theorem foldl_record (rows : List DeviceToken) (plan : Plan) :
    rows.foldl (fun plan row => plan.record row (planRow wake configured endWakeGateOpen row))
        plan =
      ⟨plan.deliveries ++ planDeliveries rows wake configured endWakeGateOpen,
        plan.skips ++ planSkips wake configured endWakeGateOpen rows⟩ := by
  induction rows generalizing plan with
  | nil => simp [planDeliveries, planSkips]
  | cons row rows ih =>
      rw [List.foldl_cons, ih]
      unfold planDeliveries planSkips
      rw [List.filterMap_cons, List.filterMap_cons]
      cases planRow wake configured endWakeGateOpen row with
      | ok delivery => simp [Plan.record, Except.toOption]
      | error reason => simp [Plan.record, Except.toOption]

theorem suits_of_planRow {row : DeviceToken} {d : PushDelivery}
    (h : planRow wake configured endWakeGateOpen row = .ok d) : Suits row d := by
  rcases planRow_cases h with ⟨environment, kind, rfl, hplatform, hkind, henvironment, _⟩ |
    ⟨rfl, hplatform⟩
  · exact ⟨rfl, platform_eq hplatform, tokenKind_eq hkind, environment_eq henvironment⟩
  · exact ⟨rfl, platform_eq hplatform⟩

/-- The deliveries go to the rows that are sent to, one each. -/
theorem suits_planDeliveries (rows : List DeviceToken) :
    List.Forall₂ Suits (rows.filter (sent wake configured endWakeGateOpen))
      (planDeliveries rows wake configured endWakeGateOpen) := by
  unfold planDeliveries
  induction rows with
  | nil => exact List.Forall₂.nil
  | cons row rows ih =>
      rw [List.filterMap_cons, List.filter_cons]
      cases hplan : planRow wake configured endWakeGateOpen row with
      | ok delivery =>
          have hsent : sent wake configured endWakeGateOpen row = true := by rw [sent, hplan]; rfl
          rw [if_pos hsent]
          exact List.Forall₂.cons (suits_of_planRow hplan) ih
      | error reason =>
          have hskipped : ¬sent wake configured endWakeGateOpen row = true := by
            rw [sent, hplan]
            exact Bool.false_ne_true
          rw [if_neg hskipped]
          exact ih

/-- The end of a call is sent to a row of APNs only if it is a VoIP token and the gate is open. -/
theorem end_of_sent {row : DeviceToken}
    (hsent : sent .callEnd configured endWakeGateOpen row = true)
    (happns : row.platform = "apns") : row.tokenKind = "voip" ∧ endWakeGateOpen = true := by
  cases hplan : planRow .callEnd configured endWakeGateOpen row with
  | error reason =>
      rw [sent, hplan] at hsent
      cases hsent
  | ok d =>
      rcases planRow_cases hplan with ⟨environment, kind, _, _, hkind, _, hend⟩ | ⟨_, hplatform⟩
      · obtain ⟨rfl, hopen⟩ := hend rfl
        exact ⟨tokenKind_eq hkind, hopen⟩
      · have hfcm := platform_eq hplatform
        rw [happns] at hfcm
        exact absurd hfcm (by decide)

theorem map_fst_planSkips (rows : List DeviceToken) :
    (planSkips wake configured endWakeGateOpen rows).map Prod.fst =
      (rows.filter fun row => !sent wake configured endWakeGateOpen row).map (·.id) := by
  unfold planSkips
  induction rows with
  | nil => rfl
  | cons row rows ih =>
      rw [List.filterMap_cons, List.filter_cons]
      cases hplan : planRow wake configured endWakeGateOpen row with
      | ok delivery =>
          have hsent : sent wake configured endWakeGateOpen row = true := by rw [sent, hplan]; rfl
          rw [hsent]
          exact ih
      | error reason =>
          have hskipped : sent wake configured endWakeGateOpen row = false := by
            rw [sent, hplan]
            rfl
          rw [hskipped, Bool.not_false, if_pos rfl, List.map_cons, List.map_cons, ← ih]

end

/-- Planning ends normally on every list of rows and splits it: the rows it sends to, in their
order, each to its own token by the transport and as the kind that its columns name, and the rows it
names as skipped. The end of a call is sent to no alert token of APNs, and to none of its tokens
while the gate is closed. -/
theorem rows_split (rows : List DeviceToken) (wake : WakeKind) (configured : List Platform)
    (endWakeGateOpen : Bool) :
    ∃ (plan : Plan) (chosen : DeviceToken → Bool),
      planAll wake configured endWakeGateOpen rows = (.ok (), plan) ∧
      List.Forall₂ Suits (rows.filter chosen) plan.deliveries ∧
      plan.skips.map Prod.fst = (rows.filter fun row => !chosen row).map (·.id) ∧
      ∀ row ∈ rows.filter chosen, wake = .callEnd → row.platform = "apns" →
        row.tokenKind = "voip" ∧ endWakeGateOpen = true := by
  have hplan : planAll wake configured endWakeGateOpen rows =
      (.ok (), ⟨planDeliveries rows wake configured endWakeGateOpen,
        planSkips wake configured endWakeGateOpen rows⟩) := by
    rw [planAll, run_forM_planOne, foldl_record]
    rfl
  refine ⟨_, sent wake configured endWakeGateOpen, hplan, ?_, ?_, ?_⟩
  · exact suits_planDeliveries rows
  · exact map_fst_planSkips rows
  · intro row hrow hwake happns
    subst hwake
    exact end_of_sent (List.mem_filter.mp hrow).2 happns

end AikoIsland.DeliveryPlans
