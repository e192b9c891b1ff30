import DSLink.Broker.Mediation
import DSLink.Broker.TreeLive

/-!
# `Broker.Answers` — the answer to a set or remove request

`broker_msg_handle_set` and `broker_msg_handle_remove` close every request with `broker_utils_send_closed_resp`, which
copies the rid out of the request as it is by then.

## Contents
- `closedResp`, `responses`: what is sent.
- `OneAnswer`: one closed response, with an error if the request was refused.
- `one_answer`: which requests are answered so.
-/

namespace DSLink

/-! ## Responses -/

/-- The response of `broker_utils_send_closed_resp`. -/
def closedResp (req : Json) (errorType : Option CString) : Json :=
  let resp : Json := .object []
  let resp := match req.get (cstr "rid") with
    | some rid => resp.set (cstr "rid") rid
    | none => resp
  let resp := resp.set (cstr "stream") (.string (cstr "closed"))
  match errorType with
  | some type => resp.set (cstr "error") (.object [(cstr "type", .string type)])
  | none => resp

theorem closedResp_rid {req rid : Json} (h : req.get (cstr "rid") = some rid) (errorType : Option CString) :
    (closedResp req errorType).get (cstr "rid") = some rid := by
  cases errorType <;> (simp only [closedResp, h]; rfl)

theorem closedResp_stream (req : Json) (errorType : Option CString) :
    (closedResp req errorType).get (cstr "stream") = some (.string (cstr "closed")) := by
  cases h : req.get (cstr "rid") <;> cases errorType <;> (simp only [closedResp, h]; rfl)

theorem closedResp_error (req : Json) (errorType : Option CString) :
    ((closedResp req errorType).get (cstr "error")).isSome = errorType.isSome := by
  cases h : req.get (cstr "rid") <;> cases errorType <;> (simp only [closedResp, h]; rfl)

/-- One response that closes `rid`, with an error exactly if the request was refused. -/
def OneAnswer (rid : Json) (refused : Prop) (responses : List Json) : Prop :=
  ∃ resp, responses = [resp] ∧ resp.get (cstr "rid") = some rid ∧
    resp.get (cstr "stream") = some (.string (cstr "closed")) ∧ ((resp.get (cstr "error")).isSome ↔ refused)

/-- A single response is an answer if its rid is right and it has an error as it should. -/
theorem oneAnswer_closedResp {req rid : Json} {refused : Prop} {errorType : Option CString} :
    OneAnswer rid refused [closedResp req errorType] ↔
      (closedResp req errorType).get (cstr "rid") = some rid ∧ (errorType.isSome ↔ refused) := by
  constructor
  · rintro ⟨resp, hone, hrid, -, herror⟩
    obtain rfl := (List.cons.inj hone).1
    rw [closedResp_error] at herror
    exact ⟨hrid, herror⟩
  · rintro ⟨hrid, herror⟩
    refine ⟨_, rfl, hrid, closedResp_stream req errorType, ?_⟩
    rw [closedResp_error]
    exact herror

namespace Site

/-- The responses to a set request. The last one is sent when the rid of a request that is passed on has been
    written anew. -/
def Handled.responses (handled : Handled) (req : Json) : List Json :=
  match handled.effect with
  | .forward _ sent =>
    handled.replies.dropLast.map (closedResp req) ++ (handled.replies.getLast?.map (closedResp sent)).toList
  | _ => handled.replies.map (closedResp req)

/-- The responses to a remove request. -/
def RemoveEffect.responses (req : Json) : RemoveEffect → List Json
  | .malformed => []
  | .closed error => [closedResp req (some error)]
  | .attribute _ _ => [closedResp req none]

end Site

namespace Broker

end Broker

namespace Site

variable {σ : Site} {L : DownId} {req rid : Json} {path : CString}

/-! ## Requests that are refused -/

/-- The link has no write permission on the path, or not with the permit of the request. -/
def Denied (σ : Site) (L : DownId) (req : Json) (path : CString) : Prop :=
  ∃ permission, σ.permissionOnPath L req path = some permission ∧ permission < .write

/-- The path ends with an attribute. -/
def IsAttribute (path : CString) : Prop := (lastSegment path).head? = some 64

/-- The path is one of a connected link. -/
def ToLink (σ : Site) (path : CString) : Prop := ∃ d out node,
  σ.base.brokerNodeGet path = some (some (.downstream d, out)) ∧ σ.base.dnode.get d = some node ∧ node.link.isSome

/-- A config of a node that is no link's. -/
def LocalConfig (σ : Site) (path : CString) : Prop :=
  (lastSegment path).head? = some 36 ∧ ∀ d out, σ.base.brokerNodeGet path ≠ some (some (.downstream d, out))

/-- The set request does nothing, because of a missing permission or an invalid parameter. -/
def SetRefused (σ : Site) (L : DownId) (req : Json) (path : CString) (effect : SetEffect) : Prop :=
  effect = .nothing ∧
    (IsAttribute path → req.get (cstr "value") = none ∨ σ.Denied L req (parentPath path)) ∧
    (¬IsAttribute path → σ.LocalConfig path ∨ σ.Denied L req path)

/-- What the part for values sends and does. -/
inductive ValueOutcome (σ : Site) (L : DownId) (req rid : Json) (path : CString) : Handled → Prop
  | denied (h : σ.Denied L req path) : ValueOutcome σ L req rid path ⟨[some (cstr "permissionDenied")], .nothing⟩
  | passed (h : ¬σ.Denied L req path) (hlink : σ.ToLink path) (hconfig : ¬σ.LocalConfig path) (d : DownId) (sent : Json)
      (hsent : sent.get (cstr "rid") = some (.integer (toU32 rid.integerValue))) :
      ValueOutcome σ L req rid path ⟨[none], .forward d sent⟩
  | config (h : ¬σ.Denied L req path) (hlink : ¬σ.ToLink path) (hconfig : σ.LocalConfig path) :
      ValueOutcome σ L req rid path ⟨[some (cstr "invalidParameter")], .nothing⟩
  | done (h : ¬σ.Denied L req path) (hlink : ¬σ.ToLink path) (hconfig : ¬σ.LocalConfig path) (effect : SetEffect)
      (heffect : ∀ d sent, effect ≠ .forward d sent) : ValueOutcome σ L req rid path ⟨[none], effect⟩

/-- A value is answered once. The rid is the one of the request unless it was written anew for a link. -/
theorem ValueOutcome.answer {handled : Handled} (h : σ.ValueOutcome L req rid path handled)
    (hrid : req.get (cstr "rid") = some rid) (hattribute : ¬IsAttribute path) :
    OneAnswer rid (σ.SetRefused L req path handled.effect) (handled.responses req) ↔
      σ.Denied L req path ∨ ¬σ.ToLink path ∨ rid = .integer (toU32 rid.integerValue) := by
  cases h with
  | denied hdenied =>
    refine iff_of_true (oneAnswer_closedResp.mpr ⟨closedResp_rid hrid _, iff_of_true rfl ?_⟩) (.inl hdenied)
    exact ⟨rfl, fun ha => absurd ha hattribute, fun _ => .inr hdenied⟩
  | passed hnot hlink hconfig d sent hsent =>
    have hone : OneAnswer rid (σ.SetRefused L req path (.forward d sent)) [closedResp sent none] ↔
        rid = .integer (toU32 rid.integerValue) := by
      rw [oneAnswer_closedResp, closedResp_rid hsent]
      constructor
      · rintro ⟨he, -⟩
        exact (Option.some.inj he).symm
      · intro he
        refine ⟨congrArg some he.symm, iff_of_false Bool.false_ne_true ?_⟩
        rintro ⟨hnothing, -⟩
        cases hnothing
    refine hone.trans ⟨fun he => .inr (.inr he), ?_⟩
    rintro (hdenied | hno | he)
    · exact absurd hdenied hnot
    · exact absurd hlink hno
    · exact he
  | config hnot hlink hconfig =>
    refine iff_of_true (oneAnswer_closedResp.mpr ⟨closedResp_rid hrid _, iff_of_true rfl ?_⟩) (.inr (.inl hlink))
    exact ⟨rfl, fun ha => absurd ha hattribute, fun _ => .inl hconfig⟩
  | done hnot hlink hconfig effect heffect =>
    have hresponses : Handled.responses ⟨[none], effect⟩ req = [closedResp req none] := by
      cases effect with
      | forward d sent => exact absurd rfl (heffect d sent)
      | _ => rfl
    rw [hresponses]
    refine iff_of_true (oneAnswer_closedResp.mpr ⟨closedResp_rid hrid _, iff_of_false Bool.false_ne_true ?_⟩)
      (.inr (.inl hlink))
    rintro ⟨-, -, hrefused⟩
    rcases hrefused hattribute with hconfig' | hdenied
    · exact hconfig hconfig'
    · exact hnot hdenied

end Site

end DSLink
