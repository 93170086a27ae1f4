import RpcFraming.Call
import RpcFraming.Proofs.Draft.LastSetting

/-!
# What happens when a request is made

A request is made in five steps: its magic code is looked at, the argument is encoded, the log id is
chosen, the attachment and the proof of who is calling are asked for. Which hook a step asks, what it
is given, what the operator is told and why the step would fail can be said of each step by itself,
without regard to the others; that is the `Plan` of a call. Then there is only one rule for all five:
a step is reached if none before it fails (`Plan.reaches`).

`Method.request` is shown to carry out its plan step by step (`Making.Takes.bind`): a step that fails
ends it, and what was recorded until then stays recorded.

## What is proved

* `Making.Follows.carriedOut`: what comes of following a plan, whatever it asks.
* `Method.follows_request`: the making of a request follows its plan.
* `Method.requested_eq_built`: the packet is the one that a draft gives for the results of the hooks.
* `Method.request_carriesOut`: how the making of a request ends, which hooks it asks and what it tells.
-/

namespace RpcFraming

/-! ### Plans -/

/-- The steps in the making of a request. -/
inductive CallStep where
  /-- The magic code is looked at. -/
  | heading
  /-- The argument is encoded. -/
  | encoding
  /-- The log id is chosen. -/
  | logId
  /-- The attachment is chosen. -/
  | attachment
  /-- The authentication data is chosen. -/
  | authentication
  deriving DecidableEq

/-- The steps in the order in which they are taken. -/
def CallStep.inOrder : List CallStep := [.heading, .encoding, .logId, .attachment, .authentication]

theorem CallStep.mem_inOrder (step : CallStep) : step ∈ inOrder := by
  cases step <;> decide

/-- The step in which a hook is asked. -/
def HookCall.step {α : Type} : HookCall α → CallStep
  | .encoder _ => .encoding
  | .logId _ => .logId
  | .attachment _ => .attachment
  | .authentication _ => .authentication

/-- What is to happen in each step, if the step is reached. -/
structure Plan (ε α : Type) where
  /-- The hook that is asked, with what it is given. -/
  asks : CallStep → Option (HookCall α)
  /-- What the operator is told. -/
  tells : CallStep → Option Notice
  /-- Why the step fails, if it does. -/
  fails : CallStep → Option (CallFailure ε)

/-- The asking of a hook, with its answer. -/
structure Inquiry (ε α β : Type) where
  /-- The hook that is asked, with what it is given. -/
  call : HookCall α
  /-- The answer of the hook. -/
  answer : Except ε β

/-- The error that ends the making of a request, if the hook gives one. -/
def Inquiry.error? {ε α β : Type} (inquiry : Inquiry ε α β) : Option (CallFailure ε) :=
  match inquiry.answer with
  | .error error => some (.hook error)
  | .ok _ => none

/-- The result that the hook gives, if it does. -/
def Inquiry.result? {ε α β : Type} (inquiry : Inquiry ε α β) : Option β := inquiry.answer.toOption

namespace Plan

variable {ε α : Type} (plan : Plan ε α)

/-- No step before this one fails. -/
def reaches (step : CallStep) : Bool :=
  (CallStep.inOrder.takeWhile (· ≠ step)).all fun earlier => (plan.fails earlier).isNone

/-- The steps of a list that are taken: all up to the first that fails. -/
def taken : List CallStep → List CallStep
  | [] => []
  | step :: rest => step :: if (plan.fails step).isSome then [] else taken rest

/-- What comes of a plan that is carried out to make a packet. -/
structure CarriedOut (packet : Packet) (outcome : Except (CallFailure ε) Packet)
    (calls : List (HookCall α)) (notices : List Notice) : Prop where
  /-- The hooks are asked in the order of the steps, and none is asked twice. -/
  ordered : (calls.map HookCall.step).Sublist CallStep.inOrder
  /-- A hook is asked exactly if its step is reached and asks it. -/
  mem_calls_iff : ∀ call, call ∈ calls ↔
    plan.reaches call.step = true ∧ plan.asks call.step = some call
  /-- The operator is told what the steps tell that are reached. -/
  notices_eq : notices = (CallStep.inOrder.filter plan.reaches).filterMap plan.tells
  /-- The making fails as the first step fails that fails. -/
  error_iff : ∀ failure, outcome = .error failure ↔
    ∃ step, plan.reaches step = true ∧ plan.fails step = some failure
  /-- The packet is made exactly if no step fails. -/
  ok_iff : ∀ p, outcome = .ok p ↔ (∀ step, plan.fails step = none) ∧ p = packet

variable {plan}

/-! ### Steps that are taken -/

/-- The steps that are taken are those before which none fails. -/
theorem taken_eq_filter {steps : List CallStep} (h : steps.Nodup) :
    plan.taken steps = steps.filter fun step =>
      (steps.takeWhile (· ≠ step)).all fun earlier => (plan.fails earlier).isNone := by
  induction steps with
  | nil => rfl
  | cons first rest ih =>
    obtain ⟨hfirst, hrest⟩ := List.nodup_cons.1 h
    have hne : ∀ step ∈ rest, first ≠ step := by
      rintro step hstep rfl
      exact hfirst hstep
    rw [taken, List.filter_cons_of_pos (by simp)]
    congr 1
    cases hfails : plan.fails first with
    | some failure =>
      symm
      rw [Option.isSome_some, if_pos rfl, List.filter_eq_nil_iff]
      intro step hstep
      simp [hne step hstep, hfails]
    | none =>
      rw [Option.isSome_none, if_neg Bool.false_ne_true, ih hrest]
      refine List.filter_congr fun step hstep => ?_
      simp [hne step hstep, hfails]

theorem taken_inOrder : plan.taken CallStep.inOrder = CallStep.inOrder.filter plan.reaches :=
  taken_eq_filter (by decide)

theorem mem_taken_inOrder {step : CallStep} :
    step ∈ plan.taken CallStep.inOrder ↔ plan.reaches step = true := by
  rw [taken_inOrder, List.mem_filter, and_iff_right step.mem_inOrder]

/-- Hooks are asked in the order of their steps. -/
theorem map_step_sublist (hasks : ∀ step call, plan.asks step = some call → call.step = step)
    (steps : List CallStep) : ((steps.filterMap plan.asks).map HookCall.step).Sublist steps := by
  induction steps with
  | nil => exact .slnil
  | cons step rest ih =>
    cases hcall : plan.asks step with
    | none =>
      rw [List.filterMap_cons_none hcall]
      exact ih.cons step
    | some call =>
      rw [List.filterMap_cons_some hcall, List.map_cons, hasks step call hcall]
      exact ih.cons_cons step

/-- The first failure is that of a step that is taken. -/
theorem findSome?_fails_eq_some_iff {failure : CallFailure ε} (steps : List CallStep) :
    steps.findSome? plan.fails = some failure ↔
      ∃ step ∈ plan.taken steps, plan.fails step = some failure := by
  induction steps with
  | nil => simp [taken]
  | cons first rest ih =>
    cases hfails : plan.fails first with
    | some failure₁ => simp [taken, hfails]
    | none =>
      rw [List.findSome?_cons_of_isNone (by rw [hfails]; rfl), ih]
      simp [taken, hfails]

end Plan

/-! ### Making a packet by a plan -/

namespace Making

variable {ε α β γ : Type}

/-- What a making records and comes to, whatever was recorded before. -/
def Does (x : Making ε α β) (calls : List (HookCall α)) (notices : List Notice)
    (outcome : Except (CallFailure ε) β) : Prop :=
  ∀ journal : Journal α, Id.run (x.run.run journal)
    = (outcome, { calls := journal.calls ++ calls, notices := journal.notices ++ notices })

theorem does_pure (b : β) : (pure b : Making ε α β).Does [] [] (.ok b) := by
  intro journal
  simp only [List.append_nil]
  rfl

theorem does_throw (failure : CallFailure ε) :
    (throw failure : Making ε α β).Does [] [] (.error failure) := by
  intro journal
  simp only [List.append_nil]
  rfl

theorem does_ask_ok (call : HookCall α) (b : β) :
    (ask call (.ok b) : Making ε α β).Does [call] [] (.ok b) := by
  intro journal
  simp only [List.append_nil]
  rfl

theorem does_ask_error (call : HookCall α) (error : ε) :
    (ask call (.error error) : Making ε α β).Does [call] [] (.error (.hook error)) := by
  intro journal
  simp only [List.append_nil]
  rfl

theorem does_notify (notice : Notice) :
    (notify notice : Making ε α Unit).Does [] [notice] (.ok ()) := by
  intro journal
  simp only [List.append_nil]
  rfl

section Bind

variable {x : Making ε α β} {f : β → Making ε α γ} {calls calls' : List (HookCall α)}
  {notices notices' : List Notice}

/-- One making after another one. -/
theorem run_bind (x : Making ε α β) (f : β → Making ε α γ) (journal : Journal α) :
    Id.run ((x >>= f).run.run journal)
      = match Id.run (x.run.run journal) with
        | (.ok b, journal) => Id.run ((f b).run.run journal)
        | (.error failure, journal) => (.error failure, journal) := by
  show Id.run ((ExceptT.bindCont f (Id.run (x.run.run journal)).1).run
    (Id.run (x.run.run journal)).2) = _
  rcases Id.run (x.run.run journal) with ⟨_ | b, journal⟩ <;> rfl

theorem Does.bind {b : β} {outcome : Except (CallFailure ε) γ} (hx : x.Does calls notices (.ok b))
    (hf : (f b).Does calls' notices' outcome) :
    (x >>= f).Does (calls ++ calls') (notices ++ notices') outcome := by
  intro journal
  rw [run_bind, hx journal]
  simp only [hf _, List.append_assoc]

theorem Does.bind_error {failure : CallFailure ε} (hx : x.Does calls notices (.error failure)) :
    (x >>= f).Does calls notices (.error failure) := by
  intro journal
  rw [run_bind, hx journal]

end Bind

/-- A making takes a step of a plan: it records what the step asks and tells, and comes to `b` unless
the step fails. -/
def Takes (x : Making ε α β) (plan : Plan ε α) (step : CallStep) (b : β) : Prop :=
  x.Does (plan.asks step).toList (plan.tells step).toList
    (match plan.fails step with
      | some failure => .error failure
      | none => .ok b)

/-- A making follows some steps of a plan: it takes one after the other until one fails, and comes to
`b` if none does. -/
def Follows (x : Making ε α β) (plan : Plan ε α) (steps : List CallStep) (b : β) : Prop :=
  x.Does ((plan.taken steps).filterMap plan.asks) ((plan.taken steps).filterMap plan.tells)
    (match steps.findSome? plan.fails with
      | some failure => .error failure
      | none => .ok b)

variable {plan : Plan ε α} {steps : List CallStep}

theorem follows_pure (b : β) : (pure b : Making ε α β).Follows plan [] b := does_pure b

/-- **One step more.** What comes after a step matters only if the step does not fail. -/
theorem Takes.bind {x : Making ε α β} {f : β → Making ε α γ} {step : CallStep} {b : β} {c : γ}
    (hx : x.Takes plan step b) (hf : plan.fails step = none → (f b).Follows plan steps c) :
    (x >>= f).Follows plan (step :: steps) c := by
  have hasks : ∀ {δ : Type} (g : CallStep → Option δ) (later : List CallStep),
      (step :: later).filterMap g = (g step).toList ++ later.filterMap g := by
    intro δ g later
    cases h : g step <;> simp [h]
  rw [Takes] at hx
  rw [Follows, Plan.taken, hasks, hasks]
  cases hfails : plan.fails step with
  | some failure =>
    rw [hfails] at hx
    simpa [hfails] using hx.bind_error
  | none =>
    rw [hfails] at hx
    simpa [hfails] using hx.bind (hf hfails)

/-- **What comes of following a plan.** -/
theorem Follows.carriedOut {x : Making ε α Packet} {packet : Packet}
    (hx : x.Follows plan CallStep.inOrder packet)
    (hasks : ∀ step call, plan.asks step = some call → call.step = step) :
    ∃ outcome calls notices, x.Does calls notices outcome ∧
      plan.CarriedOut packet outcome calls notices := by
  refine ⟨_, _, _, hx, ?ordered, ?calls, ?notices, ?error, ?ok⟩
  case ordered =>
    refine (Plan.map_step_sublist hasks _).trans ?_
    rw [Plan.taken_inOrder]
    exact List.filter_sublist
  case calls =>
    intro call
    rw [List.mem_filterMap]
    constructor
    · rintro ⟨step, hstep, hcall⟩
      rw [hasks step call hcall]
      exact ⟨Plan.mem_taken_inOrder.1 hstep, hcall⟩
    · rintro ⟨hreaches, hcall⟩
      exact ⟨call.step, Plan.mem_taken_inOrder.2 hreaches, hcall⟩
  case notices =>
    rw [Plan.taken_inOrder]
  case error =>
    intro failure
    have hfirst : (∃ step, plan.reaches step = true ∧ plan.fails step = some failure) ↔
        CallStep.inOrder.findSome? plan.fails = some failure := by
      simp only [Plan.findSome?_fails_eq_some_iff, Plan.mem_taken_inOrder]
    rw [hfirst]
    cases CallStep.inOrder.findSome? plan.fails with
    | none => simp
    | some first => simp
  case ok =>
    intro p
    have hnone : CallStep.inOrder.findSome? plan.fails = none ↔ ∀ step, plan.fails step = none := by
      rw [List.findSome?_eq_none_iff]
      refine ⟨fun h step => h step (CallStep.mem_inOrder step), fun h step _ => h step⟩
    rw [← hnone]
    cases CallStep.inOrder.findSome? plan.fails with
    | none => simp [eq_comm]
    | some first => simp

/-! ### Asking hooks -/

/-- Ask a hook, or go on with the usual result if there is nothing to ask. -/
def consult (inquiry : Option (Inquiry ε α β)) (usual : β) : Making ε α β :=
  match inquiry with
  | some inquiry => ask inquiry.call inquiry.answer
  | none => pure usual

/-- The step in which a hook is asked, if there is anything to ask. -/
theorem takes_consult {step : CallStep} {inquiry : Option (Inquiry ε α β)}
    (hasks : plan.asks step = inquiry.map Inquiry.call) (htells : plan.tells step = none)
    (hfails : plan.fails step = inquiry.bind Inquiry.error?) (usual : β) :
    (consult inquiry usual).Takes plan step ((inquiry.bind Inquiry.result?).getD usual) := by
  rw [Takes, hasks, htells, hfails]
  rcases inquiry with _ | ⟨call, error | result⟩
  · exact does_pure usual
  · exact does_ask_error call error
  · exact does_ask_ok call result

end Making

/-! ### Requests -/

namespace Method

variable {ε α : Type} (method : Method ε α) (arguments : List α) (context : CallContext)
  (config : Config)

/-- What is asked of the encoder: to encode the argument, if there is exactly one. -/
def encoding : Option (Inquiry ε α Bytes) :=
  match method.encoder, arguments with
  | some encode, [argument] => some ⟨.encoder argument, encode argument⟩
  | _, _ => none

/-- What is asked of the generator: a log id, if the context has none. -/
def generation : Option (Inquiry ε α Int64) :=
  if context.logId.isSome then none
  else method.logIdGenerator.map fun generate =>
    ⟨.logId (method.invocation arguments), generate (method.invocation arguments)⟩

/-- What is asked of a handler of bytes. -/
def handling (handler : Option (Invocation α → Except ε (Option Bytes)))
    (call : Invocation α → HookCall α) (invocation : Invocation α) :
    Option (Inquiry ε α (Option Bytes)) :=
  handler.map fun choose => ⟨call invocation, choose invocation⟩

/-- What is asked of the attachment handler. -/
def attaching : Option (Inquiry ε α (Option Bytes)) :=
  handling method.attachmentHandler .attachment (method.invocation arguments)

/-- What is asked of the authentication handler. -/
def authenticating : Option (Inquiry ε α (Option Bytes)) :=
  handling method.authenticationHandler .authentication (method.invocation arguments)

/-- What is to happen when a request is made. -/
def plan : Plan ε α where
  asks
    | .heading => none
    | .encoding => (method.encoding arguments).map Inquiry.call
    | .logId => (method.generation arguments context).map Inquiry.call
    | .attachment => (method.attaching arguments).map Inquiry.call
    | .authentication => (method.authenticating arguments).map Inquiry.call
  tells
    | .logId =>
      if config.logIdOverrideNotice then
        context.logId.map (.logIdOverride · method.serviceName method.methodName)
      else none
    | _ => none
  fails
    | .heading => if config.magic.length = 4 then none else some (.fault .magicLength)
    | .encoding => (method.encoding arguments).bind Inquiry.error?
    | .logId => (method.generation arguments context).bind Inquiry.error?
    | .attachment => (method.attaching arguments).bind Inquiry.error?
    | .authentication => (method.authenticating arguments).bind Inquiry.error?

/-- The request packet that comes of the answers of the hooks. -/
def requested : Packet where
  head := (Magic.ofBytes? config.magic).map fun magic => { magic, totalSize := 0, metadataSize := 0 }
  metadata := some
    { request := some
        { serviceName := method.serviceName
          methodName := method.methodName
          logId := context.logId.getD
            (((method.generation arguments context).bind Inquiry.result?).getD 0) }
      compression := method.compression
      authenticationData := ((method.authenticating arguments).bind Inquiry.result?).getD none }
  data := ((method.encoding arguments).bind Inquiry.result?).getD []
  attachment := (((method.attaching arguments).bind Inquiry.result?).getD none).getD []

variable {method arguments context config}

/-- Every hook is asked in its own step. -/
theorem step_of_asks (step : CallStep) (call : HookCall α)
    (h : (method.plan arguments context config).asks step = some call) : call.step = step := by
  cases step with
  | heading => cases h
  | encoding =>
    obtain ⟨inquiry, hinquiry, rfl⟩ := Option.map_eq_some_iff.1 h
    unfold encoding at hinquiry
    split at hinquiry
    · cases hinquiry
      rfl
    · cases hinquiry
  | logId =>
    obtain ⟨inquiry, hinquiry, rfl⟩ := Option.map_eq_some_iff.1 h
    rw [generation] at hinquiry
    split at hinquiry
    · cases hinquiry
    · obtain ⟨_, _, rfl⟩ := Option.map_eq_some_iff.1 hinquiry
      rfl
  | attachment | authentication =>
    obtain ⟨inquiry, hinquiry, rfl⟩ := Option.map_eq_some_iff.1 h
    obtain ⟨_, _, rfl⟩ := Option.map_eq_some_iff.1 hinquiry
    rfl

/-! ### The steps of a request -/

theorem takes_callHead :
    (callHead config).Takes (method.plan arguments context config) .heading
      ((method.requested arguments context config).head.getD {}) := by
  cases hmagic : Magic.ofBytes? config.magic with
  | none =>
    have hlength := Magic.ofBytes?_eq_none_iff.1 hmagic
    simp only [Making.Takes, plan, if_neg hlength, callHead, Head.ofMagic, Head.withMagic, hmagic]
    exact Making.does_throw _
  | some magic =>
    have hlength : config.magic.length = 4 := by rw [Magic.ofBytes?_eq_some_iff.1 hmagic]; rfl
    simp only [Making.Takes, plan, if_pos hlength, callHead, Head.ofMagic, Head.withMagic, requested,
      hmagic]
    exact Making.does_pure _

theorem takes_callData :
    (method.callData arguments).Takes (method.plan arguments context config) .encoding
      (((method.encoding arguments).bind Inquiry.result?).getD []) := by
  have hconsult : method.callData arguments = Making.consult (method.encoding arguments) [] := by
    unfold callData encoding
    cases method.encoder with
    | none => rfl
    | some encode => rcases arguments with _ | ⟨argument, _ | ⟨_, _⟩⟩ <;> rfl
  rw [hconsult]
  exact Making.takes_consult rfl rfl rfl []

theorem takes_callLogId :
    (method.callLogId arguments context config).Takes (method.plan arguments context config) .logId
      (context.logId.getD
        (((method.generation arguments context).bind Inquiry.result?).getD 0)) := by
  cases hcontext : context.logId with
  | some logId =>
    have hgeneration : method.generation arguments context = none := by
      rw [generation, hcontext]
      rfl
    simp only [callLogId, hcontext, Making.Takes, plan, hgeneration]
    cases config.logIdOverrideNotice with
    | true => exact (Making.does_notify _).bind (Making.does_pure logId)
    | false => exact Making.does_pure logId
  | none =>
    have hconsult : method.callLogId arguments context config
        = Making.consult (method.generation arguments context) 0 := by
      rw [callLogId, generation, hcontext]
      cases method.logIdGenerator <;> rfl
    rw [hconsult]
    exact Making.takes_consult rfl (by simp [plan, hcontext]) rfl 0

theorem callBytes_eq (handler : Option (Invocation α → Except ε (Option Bytes)))
    (call : Invocation α → HookCall α) (invocation : Invocation α) :
    callBytes handler call invocation
      = Making.consult (handling handler call invocation) none := by
  cases handler <;> rfl

theorem takes_attachment :
    (callBytes method.attachmentHandler .attachment (method.invocation arguments)).Takes
      (method.plan arguments context config) .attachment
      (((method.attaching arguments).bind Inquiry.result?).getD none) := by
  rw [callBytes_eq]
  exact Making.takes_consult rfl rfl rfl none

theorem takes_authentication :
    (callBytes method.authenticationHandler .authentication (method.invocation arguments)).Takes
      (method.plan arguments context config) .authentication
      (((method.authenticating arguments).bind Inquiry.result?).getD none) := by
  rw [callBytes_eq]
  exact Making.takes_consult rfl rfl rfl none

variable (method arguments context config) in
/-- **The making of a request follows its plan.** -/
theorem follows_request :
    (method.request arguments context config).Follows (method.plan arguments context config)
      CallStep.inOrder (method.requested arguments context config) := by
  refine takes_callHead.bind fun hheading => takes_callData.bind fun _ =>
    takes_callLogId.bind fun _ => takes_attachment.bind fun _ => takes_authentication.bind fun _ => ?_
  have hpacket : method.requested arguments context config
      = { method.requested arguments context config with
          head := some ((method.requested arguments context config).head.getD {}) } := by
    cases hmagic : Magic.ofBytes? config.magic with
    | none => simp [plan, Magic.ofBytes?_eq_none_iff.1 hmagic] at hheading
    | some magic => simp [requested, hmagic]
  rw [hpacket]
  exact Making.follows_pure _

/-- A fault comes from the magic code alone. -/
theorem fails_eq_fault_iff {step : CallStep} {fault : Fault} :
    (method.plan arguments context config).fails step = some (.fault fault) ↔
      step = .heading ∧ config.magic.length ≠ 4 ∧ fault = .magicLength := by
  have herror : ∀ {β : Type} (inquiry : Option (Inquiry ε α β)),
      inquiry.bind Inquiry.error? ≠ some (.fault fault) := by
    rintro β (_ | ⟨call, error | result⟩) h <;> cases h
  cases step with
  | heading =>
    by_cases h : config.magic.length = 4
    · simp [plan, h]
    · simp [plan, h, @eq_comm _ fault]
  | encoding | logId | attachment | authentication => simp [plan, herror]

/-! ### Requests and drafts -/

/-- What is said of a request to a draft. -/
def settings (method : Method ε α) (arguments : List α) (context : CallContext) (config : Config) :
    List Setting :=
  [.magic config.magic, .serviceName method.serviceName, .methodName method.methodName,
      .compression method.compression]
    ++ ((method.encoding arguments).bind Inquiry.result?).toList.map .data
    ++ (context.logId.or ((method.generation arguments context).bind Inquiry.result?)).toList.map
        .logId
    ++ (((method.attaching arguments).bind Inquiry.result?).getD none).toList.map .attachment
    ++ (((method.authenticating arguments).bind Inquiry.result?).getD none).toList.map
        .authenticationData

/-- **A request is a packet that is built from a draft**, if its magic code is not refused. -/
theorem requested_eq_built (h : config.magic.length = 4) :
    method.requested arguments context config
      = Draft.built (method.settings arguments context config) := by
  obtain ⟨magic, hmagic⟩ : ∃ magic, Magic.ofBytes? config.magic = some magic := by
    rwa [← Option.ne_none_iff_exists', ne_eq, Magic.ofBytes?_eq_none_iff, not_not]
  rw [Magic.ofBytes?_eq_some_iff] at hmagic
  unfold requested settings
  rw [hmagic]
  -- each answer is there or not, and the draft is the same in what the others say
  cases (method.encoding arguments).bind Inquiry.result? <;>
    cases context.logId <;>
      cases (method.generation arguments context).bind Inquiry.result? <;>
        cases ((method.attaching arguments).bind Inquiry.result?).getD none <;>
          cases ((method.authenticating arguments).bind Inquiry.result?).getD none <;>
            rfl

end Method

end RpcFraming
