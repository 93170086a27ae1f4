import RpcFraming.Proofs.Draft.Refused
import RpcFraming.Proofs.Equality
import Mathlib.Data.List.Induction

/-!
# What a draft says in the end

A draft is filled in by settings, in any order and with packets built from it in between. Each part of
a packet has one setting that says it, and the last one said counts; only the added values of the
request are all kept. A part is there as soon as anything in it was said, and what was not said in it
is as usual. `packetOf` is this packet, told from the settings alone and without a draft.

That a draft comes to the same is shown setting by setting: one more setting changes what is said by
that setting alone (`set_draftOf`). Since every part of `packetOf` looks at one setter, it does not
matter how the settings of different setters are mixed (`SameOrder.packetOf_eq`).

## What is proved

* `setAll_eq_draftOf`: a fresh draft holds after some accepted settings what they say.
* `flatten_set_trace`: a trace is set field by field, where metadata is laid out flat.
* `SameOrder.packetOf_eq`: settings may change places with settings of other setters.
* `Workbench.builds_packetOf`: each packet that is built is the one that the settings before it say, it
  stays as it is, and every reordering builds the same.
-/

namespace RpcFraming

namespace Setting

variable {α : Type}

/-! ### What is said -/

/-- The last value that some settings say of what `pick` looks for. -/
def last? (pick : Setting → Option α) (settings : List Setting) : Option α :=
  (settings.filterMap pick).getLast?

/-- The setting says something of the request. -/
def isOfRequest : Setting → Bool
  | .serviceName _ | .methodName _ | .logId _ | .trace _ | .extField _ | .extraParam _ => true
  | _ => false

/-- The setting says something of the response. -/
def isOfResponse : Setting → Bool
  | .errorCode _ | .errorText _ => true
  | _ => false

/-- The setting says something of the metadata, the request and the response included. -/
def isOfMetadata : Setting → Bool
  | .compression _ | .correlationId _ | .chunkInfo _ | .authenticationData _ => true
  | s => s.isOfRequest || s.isOfResponse

/-- One more setting counts if it says what is looked for. -/
theorem last?_concat (pick : Setting → Option α) (settings : List Setting) (s : Setting) :
    last? pick (settings ++ [s]) = (pick s).or (last? pick settings) := by
  rw [last?, List.filterMap_append]
  cases h : pick s with
  | none => simp [h, last?]
  | some value => simp [h]

/-- The head that some settings say. -/
def headOf (settings : List Setting) : Option Head :=
  ((last? (fun | .magic code => some code | _ => none) settings).bind Magic.ofBytes?).map
    fun magic => { magic, totalSize := 0, metadataSize := 0 }

/-- The request that some settings say. -/
def requestOf (settings : List Setting) : Request where
  serviceName := (last? (fun | .serviceName name => some name | _ => none) settings).getD ""
  methodName := (last? (fun | .methodName name => some name | _ => none) settings).getD ""
  logId := (last? (fun | .logId id => some id | _ => none) settings).getD 0
  trace := (last? (fun | .trace place => some place | _ => none) settings).getD {}
  extFields := settings.filterMap fun | .extField field => some field | _ => none
  extraParam := (last? (fun | .extraParam bytes => some bytes | _ => none) settings).getD []

/-- The response that some settings say. -/
def responseOf (settings : List Setting) : Response where
  errorCode := (last? (fun | .errorCode code => some code | _ => none) settings).getD 0
  errorText := (last? (fun | .errorText text => some text | _ => none) settings).getD ""

/-- The metadata that some settings say. -/
def metadataOf (settings : List Setting) : Metadata where
  request := if settings.any isOfRequest then some (requestOf settings) else none
  response := if settings.any isOfResponse then some (responseOf settings) else none
  compression := (last? (fun | .compression c => some c | _ => none) settings).getD .none
  correlationId := (last? (fun | .correlationId id => some id | _ => none) settings).getD 0
  chunkInfo := last? (fun | .chunkInfo info => some info | _ => none) settings
  authenticationData := last? (fun | .authenticationData bytes => some bytes | _ => none) settings

/-- The packet that some settings say. -/
def packetOf (settings : List Setting) : Packet where
  head := headOf settings
  metadata := if settings.any isOfMetadata then some (metadataOf settings) else none
  data := (last? (fun | .data bytes => some bytes | _ => none) settings).getD []
  attachment := (last? (fun | .attachment bytes => some bytes | _ => none) settings).getD []
  timestamp := (last? (fun | .timestamp time => some time | _ => none) settings).getD 0

/-! ### Nothing said -/

/-- What only settings of one group add to is as in the beginning while there are none of them. -/
theorem eq_nil_of_not_any {f : List Setting → α} {group : Setting → Bool} {settings : List Setting}
    (hf : ∀ settings s, group s = false → f (settings ++ [s]) = f settings)
    (h : settings.any group = false) : f settings = f [] := by
  induction settings using List.reverseRecOn with
  | nil => rfl
  | append_singleton settings s ih =>
    rw [List.any_append, Bool.or_eq_false_iff, List.any_cons, List.any_nil, Bool.or_false] at h
    rw [hf settings s h.2, ih h.1]

theorem requestOf_concat_of_not (settings : List Setting) (s : Setting) (hs : s.isOfRequest = false) :
    requestOf (settings ++ [s]) = requestOf settings := by
  cases s with
  | serviceName _ | methodName _ | logId _ | trace _ | extField _ | extraParam _ => cases hs
  | _ => simp [requestOf, last?_concat]

theorem responseOf_concat_of_not (settings : List Setting) (s : Setting)
    (hs : s.isOfResponse = false) : responseOf (settings ++ [s]) = responseOf settings := by
  cases s with
  | errorCode _ | errorText _ => cases hs
  | _ => simp [responseOf, last?_concat]

theorem metadataOf_concat_of_not (settings : List Setting) (s : Setting)
    (hs : s.isOfMetadata = false) : metadataOf (settings ++ [s]) = metadataOf settings := by
  cases s with
  | magic _ | data _ | attachment _ | timestamp _ =>
    simp [metadataOf, requestOf, responseOf, last?_concat, isOfRequest, isOfResponse]
  | _ => cases hs

/-- A request that is not there is as one of which nothing was said. -/
theorem getD_request_metadataOf (settings : List Setting) :
    (metadataOf settings).request.getD {} = requestOf settings := by
  cases h : settings.any isOfRequest with
  | false =>
    rw [eq_nil_of_not_any requestOf_concat_of_not h, metadataOf, h]
    rfl
  | true =>
    rw [metadataOf, h]
    rfl

theorem getD_response_metadataOf (settings : List Setting) :
    (metadataOf settings).response.getD {} = responseOf settings := by
  cases h : settings.any isOfResponse with
  | false =>
    rw [eq_nil_of_not_any responseOf_concat_of_not h, metadataOf, h]
    rfl
  | true =>
    rw [metadataOf, h]
    rfl

end Setting

open Setting

namespace Draft

/-! ### Setting by setting -/

/-- What a fresh draft holds after some settings. -/
def draftOf (settings : List Setting) : Draft where
  head := (packetOf settings).head
  metadata := (packetOf settings).metadata
  data := (packetOf settings).data
  attachment := (packetOf settings).attachment
  timestamp := last? (fun | .timestamp time => some time | _ => none) settings

/-- Metadata that is not there is as metadata of which nothing was said. -/
theorem getD_metadata_draftOf (settings : List Setting) :
    (draftOf settings).metadata.getD {} = metadataOf settings := by
  cases h : settings.any isOfMetadata with
  | false =>
    rw [eq_nil_of_not_any metadataOf_concat_of_not h, draftOf, packetOf, h]
    rfl
  | true =>
    rw [draftOf, packetOf, h]
    rfl

theorem updateRequest_draftOf (settings : List Setting) (f : Request → Request) :
    (draftOf settings).updateRequest f
      = { draftOf settings with
          metadata := some
            { metadataOf settings with request := some (f (requestOf settings)) } } := by
  rw [updateRequest, updateMetadata, getD_metadata_draftOf, getD_request_metadataOf]

theorem updateResponse_draftOf (settings : List Setting) (f : Response → Response) :
    (draftOf settings).updateResponse f
      = { draftOf settings with
          metadata := some
            { metadataOf settings with response := some (f (responseOf settings)) } } := by
  rw [updateResponse, updateMetadata, getD_metadata_draftOf, getD_response_metadataOf]

/-- A setting of the request says nothing of the rest. -/
theorem draftOf_concat_of_isOfRequest (settings : List Setting) {s : Setting}
    (hs : s.isOfRequest = true) :
    draftOf (settings ++ [s])
      = { draftOf settings with
          metadata := some
            { metadataOf settings with request := some (requestOf (settings ++ [s])) } } := by
  cases s with
  | serviceName _ | methodName _ | logId _ | trace _ | extField _ | extraParam _ =>
    simp [draftOf, packetOf, headOf, metadataOf, responseOf, last?_concat, isOfMetadata,
      isOfRequest, isOfResponse]
  | _ => cases hs

/-- A setting of the response says nothing of the rest. -/
theorem draftOf_concat_of_isOfResponse (settings : List Setting) {s : Setting}
    (hs : s.isOfResponse = true) :
    draftOf (settings ++ [s])
      = { draftOf settings with
          metadata := some
            { metadataOf settings with response := some (responseOf (settings ++ [s])) } } := by
  cases s with
  | errorCode _ | errorText _ =>
    simp [draftOf, packetOf, headOf, metadataOf, requestOf, last?_concat, isOfMetadata,
      isOfRequest, isOfResponse]
  | _ => cases hs

/-- **One more setting** of a draft that holds what was said. -/
theorem set_draftOf (settings : List Setting) {s : Setting} (hs : s.isRefused = false) :
    ((draftOf settings).set s).1 = draftOf (settings ++ [s]) := by
  cases s with
  | magic code =>
    obtain ⟨magic, hcode⟩ : ∃ magic, Magic.ofBytes? code = some magic := by
      rw [← Option.ne_none_iff_exists', ne_eq, Magic.ofBytes?_eq_none_iff]
      simpa [isRefused] using hs
    have hhead : headOf (settings ++ [.magic code]) = some { magic } := by
      simp [headOf, last?_concat, hcode]
    -- whatever head there is, only its magic code was ever set
    have hkept : { (headOf settings).getD {} with magic } = ({ magic } : Head) := by
      rw [headOf]
      cases (last? (fun | .magic code => some code | _ => none) settings).bind Magic.ofBytes? <;> rfl
    have hmetadata : metadataOf (settings ++ [.magic code]) = metadataOf settings :=
      metadataOf_concat_of_not settings (.magic code) rfl
    simp only [set, setMagic, Head.withMagic, hcode]
    simp [draftOf, packetOf, last?_concat, isOfMetadata, isOfRequest, isOfResponse, hhead, hkept,
      hmetadata]
  | serviceName _ | methodName _ | logId _ | trace _ | extField _ | extraParam _ =>
    rw [draftOf_concat_of_isOfRequest settings rfl, set, updateRequest_draftOf]
    simp [requestOf, last?_concat]
  | errorCode _ | errorText _ =>
    rw [draftOf_concat_of_isOfResponse settings rfl, set, updateResponse_draftOf]
    simp [responseOf, last?_concat]
  | compression _ | correlationId _ | chunkInfo _ | authenticationData _ =>
    simp only [set, updateMetadata, getD_metadata_draftOf]
    simp [draftOf, packetOf, headOf, metadataOf, requestOf, responseOf, last?_concat, isOfMetadata,
      isOfRequest, isOfResponse]
  | data _ | attachment _ | timestamp _ =>
    simp [set, draftOf, packetOf, headOf, last?_concat, isOfMetadata, isOfRequest, isOfResponse,
      metadataOf_concat_of_not]

/-- **A draft holds what was said last**, and nothing that was not said. -/
theorem setAll_eq_draftOf {settings : List Setting} (h : ∀ s ∈ settings, s.isRefused = false) :
    ({} : Draft).setAll settings = draftOf settings := by
  induction settings using List.reverseRecOn with
  | nil => rfl
  | append_singleton settings s ih =>
    rw [List.forall_mem_append, List.forall_mem_singleton] at h
    rw [setAll_append, ih h.1, ← set_draftOf settings h.2]
    rfl

/-- In flat metadata, setting the trace overwrites the fields of the trace and touches nothing else; the
metadata and the request are there afterwards if they were not before. -/
theorem flatten_set_trace (d : Draft) (t : Trace) :
    (d.set (.trace t)).1.metadata.map Metadata.flatten
      = some { (d.metadata.getD {}).flatten with
          request := some (((d.metadata.getD {}).flatten.request.getD {}).setTrace t) } := by
  have hrequest : (d.metadata.getD {}).flatten.request.getD {}
      = ((d.metadata.getD {}).request.getD {}).flatten := by
    rw [Metadata.flatten]
    cases (d.metadata.getD {}).request <;> rfl
  rw [hrequest, ← Request.flatten_withTrace]
  rfl

end Draft

/-! ### Reordering -/

/-- Two settings are made by the same setter: they differ at most in the value that they say. -/
def Setting.sameSetter (s t : Setting) : Bool := s.ctorIdx = t.ctorIdx

/-- Two lists have the same settings, and those of one setter in the same order. -/
def SameOrder (settings settings' : List Setting) : Prop :=
  ∀ t : Setting, settings.filter (·.sameSetter t) = settings'.filter (·.sameSetter t)

namespace SameOrder

variable {settings settings' : List Setting} (h : SameOrder settings settings')

include h

theorem mem_iff (s : Setting) : s ∈ settings ↔ s ∈ settings' := by
  have hs : s.sameSetter s = true := decide_eq_true rfl
  have hfilter : s ∈ settings.filter (·.sameSetter s) ↔ s ∈ settings'.filter (·.sameSetter s) := by
    rw [h s]
  simpa [hs] using hfilter

theorem any_eq (group : Setting → Bool) : settings.any group = settings'.any group := by
  rw [Bool.eq_iff_iff, List.any_eq_true, List.any_eq_true]
  simp only [h.mem_iff]

/-- What only one setter can say is said in the same order. -/
theorem filterMap_eq {α : Type} {pick : Setting → Option α}
    (hpick : ∀ s t, (pick s).isSome → (pick t).isSome → s.sameSetter t = true) :
    settings.filterMap pick = settings'.filterMap pick := by
  by_cases hex : ∃ t, (pick t).isSome
  · obtain ⟨t, ht⟩ := hex
    have hfilter : ∀ l : List Setting,
        l.filterMap pick = (l.filter (·.sameSetter t)).filterMap pick := by
      intro l
      rw [List.filterMap_filter]
      congr 1
      funext s
      cases hs : pick s with
      | none => simp
      | some value => rw [if_pos (hpick s t (by rw [hs]; rfl) ht)]
    rw [hfilter, h t, ← hfilter]
  · have hnone : pick = fun _ => none := by
      funext s
      exact Option.not_isSome_iff_eq_none.1 fun hs => hex ⟨s, hs⟩
    simp [hnone]

theorem headOf_eq : headOf settings = headOf settings' := by
  rw [headOf, last?, h.filterMap_eq]
  · rfl
  · intro s t hs ht
    cases s <;> cases hs
    cases t <;> cases ht
    rfl

theorem requestOf_eq : requestOf settings = requestOf settings' := by
  simp only [requestOf, last?]
  congr 1
  all_goals
    rw [h.filterMap_eq]
    intro s t hs ht
    cases s <;> cases hs
    cases t <;> cases ht
    rfl

theorem responseOf_eq : responseOf settings = responseOf settings' := by
  simp only [responseOf, last?]
  congr 1
  all_goals
    rw [h.filterMap_eq]
    intro s t hs ht
    cases s <;> cases hs
    cases t <;> cases ht
    rfl

theorem metadataOf_eq : metadataOf settings = metadataOf settings' := by
  simp only [metadataOf, last?, h.any_eq, h.requestOf_eq, h.responseOf_eq]
  congr 1
  all_goals
    rw [h.filterMap_eq]
    intro s t hs ht
    cases s <;> cases hs
    cases t <;> cases ht
    rfl

theorem packetOf_eq : packetOf settings = packetOf settings' := by
  simp only [packetOf, last?, h.any_eq, h.headOf_eq, h.metadataOf_eq]
  congr 1
  all_goals
    rw [h.filterMap_eq]
    intro s t hs ht
    cases s <;> cases hs
    cases t <;> cases ht
    rfl

end SameOrder

/-! ### Drafts and their packets -/

/-- What is done with a draft. -/
inductive Draft.Action where
  /-- Something is set. -/
  | set (setting : Setting)
  /-- A packet is built. -/
  | build

/-- A draft, with the packets that were built from it. -/
structure Workbench where
  /-- The draft. -/
  draft : Draft := {}
  /-- The packets, the one built first in front. -/
  packets : List Packet := []

namespace Workbench

/-- One action, whether or not something is refused. -/
def act (w : Workbench) : Draft.Action → Workbench
  | .set s => { w with draft := (w.draft.set s).1 }
  | .build => { w with packets := w.packets ++ [w.draft.build] }

/-- A fresh draft after some actions, and what was built of it. -/
def after (actions : List Draft.Action) : Workbench := actions.foldl act {}

/-- The settings among some actions. -/
def settingsOf (actions : List Draft.Action) : List Setting :=
  actions.filterMap fun | .set s => some s | .build => none

variable {actions : List Draft.Action}

@[simp] theorem after_concat (actions : List Draft.Action) (action : Draft.Action) :
    after (actions ++ [action]) = (after actions).act action := by
  simp [after]

/-- Building leaves the draft as it is. -/
theorem draft_after (actions : List Draft.Action) :
    (after actions).draft = ({} : Draft).setAll (settingsOf actions) := by
  induction actions using List.reverseRecOn with
  | nil => rfl
  | append_singleton actions action ih =>
    cases action with
    | set s =>
      have hsettings : settingsOf (actions ++ [.set s]) = settingsOf actions ++ [s] := by
        simp [settingsOf]
      rw [after_concat, hsettings, Draft.setAll_append, ← ih]
      rfl
    | build =>
      have hsettings : settingsOf (actions ++ [.build]) = settingsOf actions := by
        simp [settingsOf]
      rw [after_concat, hsettings, ← ih]
      rfl

/-- Packets that were built stay what they are. -/
theorem packets_after_prefix (actions later : List Draft.Action) :
    (after actions).packets <+: (after (actions ++ later)).packets := by
  induction later using List.reverseRecOn with
  | nil => simp
  | append_singleton later action ih =>
    rw [← List.append_assoc, after_concat]
    refine ih.trans ?_
    cases action with
    | set s => exact List.prefix_rfl
    | build => exact List.prefix_append _ _

theorem build_after (h : ∀ s ∈ settingsOf actions, s.isRefused = false) :
    (after actions).draft.build = packetOf (settingsOf actions) := by
  rw [draft_after, Draft.setAll_eq_draftOf h]
  rfl

/-- **The last setting counts.** As long as no setting is refused, the packet that is built next is the
one that the settings so far say. It joins the packets that were built before, and none of them changes
whatever is done later. The same is built after any actions that set the same, those of one setter in
the same order. -/
theorem builds_packetOf (h : ∀ s ∈ settingsOf actions, s.isRefused = false) :
    (∀ later, (after actions).packets ++ [packetOf (settingsOf actions)]
      <+: (after (actions ++ .build :: later)).packets) ∧
    ∀ reordered, SameOrder (settingsOf reordered) (settingsOf actions) →
      (after reordered).draft.build = packetOf (settingsOf actions) := by
  constructor
  · intro later
    have hbuilt : (after (actions ++ [.build])).packets
        = (after actions).packets ++ [packetOf (settingsOf actions)] := by
      rw [after_concat, ← build_after h]
      rfl
    rw [← hbuilt, List.append_cons actions .build later]
    exact packets_after_prefix _ later
  · intro reordered horder
    rw [build_after fun s hs => h s ((horder.mem_iff s).1 hs)]
    exact horder.packetOf_eq

/-- Some settings, with a packet built in between. -/
def sampleActions : List Draft.Action :=
  [.set (.serviceName "a"), .set (.extField ⟨"k", "1"⟩), .build, .set (.magic [0x48, 0x55, 0x4C, 0x55]),
    .set (.errorText "e"), .set (.extField ⟨"k", "2"⟩), .set (.serviceName "b"), .set (.data [1])]

/-- The settings of `sampleActions` in another order. -/
def sampleReordered : List Draft.Action :=
  [.set (.data [1]), .set (.extField ⟨"k", "1"⟩), .set (.extField ⟨"k", "2"⟩), .set (.errorText "e"),
    .set (.serviceName "a"), .build, .set (.serviceName "b"), .set (.magic [0x48, 0x55, 0x4C, 0x55])]

/-- `builds_packetOf` on `sampleActions`: the packet has the later service name, both added values, a
response beside the request, and the magic code that was set after the first packet was built. -/
theorem builds_sampleActions :
    (∀ s ∈ settingsOf sampleActions, s.isRefused = false) ∧
      SameOrder (settingsOf sampleReordered) (settingsOf sampleActions) ∧
      (after sampleActions).packets ++ [packetOf (settingsOf sampleActions)]
        <+: (after (sampleActions ++ [.build, .set (.serviceName "c"), .build])).packets ∧
      (after sampleReordered).draft.build
        = { head := some { magic := ⟨0x48, 0x55, 0x4C, 0x55⟩ }
            metadata := some
              { request := some { serviceName := "b", extFields := [⟨"k", "1"⟩, ⟨"k", "2"⟩] }
                response := some { errorText := "e" } }
            data := [1] } := by
  have haccepted : ∀ s ∈ settingsOf sampleActions, s.isRefused = false := by decide
  have horder : SameOrder (settingsOf sampleReordered) (settingsOf sampleActions) := by
    intro t
    cases t <;> rfl
  obtain ⟨hbuilt, hreordered⟩ := builds_packetOf haccepted
  exact ⟨haccepted, horder, hbuilt _, hreordered _ horder⟩

end Workbench

end RpcFraming
