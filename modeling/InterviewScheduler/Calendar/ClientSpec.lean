import InterviewScheduler.Calendar.Client
import InterviewScheduler.Util.Except

/-! # What escapes the Google client

A call makes at most three attempts and none after an authorization error, whatever the network does. It
raises nothing but its two exceptions exactly when the outcome that it does not retry can be read
(`call_wellBehaved_iff`): the documented JSON for a success, and any dictionary for a 400 or a 401, in a
text that does not exceed the limits of the parser.

`events.insert` is retried like the rest, so that an event is created twice when a request was applied and
its response was lost (`createdOnce_iff`). -/

namespace InterviewScheduler.Calendar.Client

open InterviewScheduler.Engine InterviewScheduler.Core InterviewScheduler.Python
open InterviewScheduler.Util

variable {rt : Runtime} {op : Operation} {okStatuses : List ℕ} {network : ℕ → Outcome}

/-! ### The attempts -/

/-- The outcome is a network failure, a 429 or a 5xx. -/
def Outcome.Retried (okStatuses : List ℕ) : Outcome → Prop
  | .transportError _ => True
  | .timeout _ => True
  | .response status _ => 400 ≤ status ∧ status ∉ okStatuses ∧ (status = 429 ∨ 500 ≤ status)

/-- Google rejects the grant. -/
def Outcome.Unauthorized : Outcome → Prop
  | .response status body => status = 401 ∨ status = 400 ∧ ∃ fields error,
      body = .json (.object fields) ∧ Json.lookup fields "error" = some error ∧ deadGrant error
  | _ => False

theorem retried_iff (rt : Runtime) {o : Outcome} :
    o.Retried okStatuses ↔ ∃ text, attempt rt okStatuses o = .fails text := by
  cases o with
  | transportError text => exact ⟨fun _ => ⟨text, rfl⟩, fun _ => trivial⟩
  | timeout text => exact ⟨fun _ => ⟨text, rfl⟩, fun _ => trivial⟩
  | response status body =>
    simp only [Outcome.Retried, attempt]
    split_ifs with h1 h2 h3
    · simp only [exists_const, iff_false]
      rintro ⟨h4, h5, -⟩
      exact h1.elim (fun h => by omega) h5
    · split <;> simp <;> omega
    · simp
      omega
    · push Not at h1
      simp only [Attempt.fails.injEq, exists_eq', iff_true]
      refine ⟨h1.1, h1.2, ?_⟩
      omega

/-- An authorization error is final. -/
theorem not_retried_of_unauthorized {o : Outcome} (h : o.Unauthorized) : ¬ o.Retried okStatuses := by
  cases o with
  | response status body =>
    rintro ⟨-, -, h2⟩
    rcases h with h | ⟨h, -⟩ <;> omega
  | _ => exact h.elim

/-- The requests that are made: those before were retried. -/
def Made (okStatuses : List ℕ) (network : ℕ → Outcome) (i : ℕ) : Prop :=
  i < retryAttempts ∧ ∀ k < i, (network k).Retried okStatuses

/-- **How a request ends**: with the first outcome that is not retried, or with a transport error. -/
inductive Ends (rt : Runtime) (okStatuses : List ℕ) (network : ℕ → Outcome) (i n : ℕ)
    (r : Http Body × ℕ) : Prop
  | decided {j : ℕ} (hj : i ≤ j ∧ j < i + n)
      (hbefore : ∀ k, i ≤ k → k < j → (network k).Retried okStatuses)
      (hat : ¬ (network j).Retried okStatuses) (hcount : r.2 = j + 1)
      (hres : (∃ body, attempt rt okStatuses (network j) = .returns body ∧ r.1 = .ok body) ∨
        ∃ e, attempt rt okStatuses (network j) = .raises e ∧ r.1 = .error e)
  | exhausted (hall : ∀ k, i ≤ k → k < i + n → (network k).Retried okStatuses)
      (hcount : r.2 = i + n) (hres : ∃ text, r.1 = .error (.transport text))

theorem ends_requestFrom (n i : ℕ) (lastExc : Option String) :
    Ends rt okStatuses network i n (requestFrom rt okStatuses network n i lastExc) := by
  induction n generalizing i lastExc with
  | zero => exact .exhausted (fun k h1 h2 => by omega) rfl ⟨_, rfl⟩
  | succ n ih =>
    unfold requestFrom
    cases ha : attempt rt okStatuses (network i) with
    | returns body =>
      refine .decided ⟨le_rfl, by omega⟩ (fun k h1 h2 => by omega) ?_ rfl (.inl ⟨body, ha, rfl⟩)
      rw [retried_iff rt, ha]
      simp
    | raises e =>
      refine .decided ⟨le_rfl, by omega⟩ (fun k h1 h2 => by omega) ?_ rfl (.inr ⟨e, ha, rfl⟩)
      rw [retried_iff rt, ha]
      simp
    | fails text =>
      have hi : (network i).Retried okStatuses := (retried_iff rt).mpr ⟨text, ha⟩
      have hcons : ∀ k, i ≤ k → (i + 1 ≤ k → (network k).Retried okStatuses) →
          (network k).Retried okStatuses := by
        intro k hk hlater
        rcases Nat.eq_or_lt_of_le hk with rfl | hlt
        · exact hi
        · exact hlater hlt
      cases ih (i + 1) (some text) with
      | decided hj hbefore hat hcount hres =>
        exact .decided (by omega) (fun k h1 h2 => hcons k h1 fun h => hbefore k h h2) hat hcount hres
      | exhausted hall hcount hres =>
        exact .exhausted (fun k h1 h2 => hcons k h1 fun h => hall k h (by omega))
          (hcount.trans (by omega)) hres

theorem ends_request (rt : Runtime) (okStatuses : List ℕ) (network : ℕ → Outcome) :
    Ends rt okStatuses network 0 retryAttempts (request rt okStatuses network) :=
  ends_requestFrom _ _ _

/-- **A call makes at most three attempts.** -/
theorem attempts_le : (call rt op network).2 ≤ retryAttempts := by
  change (request rt op.okStatuses network).2 ≤ _
  cases ends_request rt op.okStatuses network with
  | decided hj _ _ hcount _ => omega
  | exhausted _ hcount _ => omega

/-- The attempts are the requests that are made. -/
theorem lt_attempts_iff (op : Operation) {i : ℕ} :
    i < (call rt op network).2 ↔ Made op.okStatuses network i := by
  change i < (request rt op.okStatuses network).2 ↔ _
  unfold Made
  cases ends_request rt op.okStatuses network with
  | @decided j hj hbefore hat hcount _ =>
    rw [hcount]
    constructor
    · intro hi
      exact ⟨by omega, fun k hk => hbefore k (Nat.zero_le k) (by omega)⟩
    · rintro ⟨-, hall⟩
      by_contra hn
      exact hat (hall j (by omega))
  | exhausted hall hcount _ =>
    rw [hcount]
    constructor
    · intro hi
      exact ⟨by omega, fun k hk => hall k (Nat.zero_le k) (by omega)⟩
    · intro h
      omega

/-! ### The result of a call -/

/-- The requests of which the outcome decides the call. -/
def Decides (okStatuses : List ℕ) (network : ℕ → Outcome) (i : ℕ) : Prop :=
  Made okStatuses network i ∧ ¬ (network i).Retried okStatuses

/-- What an operation makes of an outcome that it does not retry. -/
def answerOf (rt : Runtime) (op : Operation) (o : Outcome) : Http Value :=
  match attempt rt op.okStatuses o with
  | .returns body => op.read rt body
  | .raises e => .error e
  | .fails text => .error (.transport text)

theorem decides_unique {i j : ℕ} (hi : Decides okStatuses network i)
    (hj : Decides okStatuses network j) : i = j := by
  rcases lt_trichotomy i j with h | h | h
  · exact absurd (hj.1.2 i h) hi.2
  · exact h
  · exact absurd (hi.1.2 j h) hj.2

/-- **The result is what is made of the outcome that decides**, if there is one. -/
theorem call_of_decides (op : Operation) {i : ℕ} (h : Decides op.okStatuses network i) :
    (call rt op network).1 = answerOf rt op (network i) := by
  change (request rt op.okStatuses network).1 >>= op.read rt = _
  cases ends_request rt op.okStatuses network with
  | @decided j hj hbefore hat _ hres =>
    have hd : Decides op.okStatuses network j :=
      ⟨⟨by omega, fun k hk => hbefore k (Nat.zero_le k) hk⟩, hat⟩
    obtain rfl := decides_unique h hd
    unfold answerOf
    rcases hres with ⟨body, ha, hr⟩ | ⟨e, ha, hr⟩
    · rw [ha, hr]
      rfl
    · rw [ha, hr]
      rfl
  | exhausted hall _ _ => exact absurd (hall i (Nat.zero_le i) (by have := h.1.1; omega)) h.2

/-- With no such outcome the call raises a transport error. -/
theorem call_of_none (rt : Runtime) (op : Operation) (h : ∀ i, ¬ Decides op.okStatuses network i) :
    ∃ text, (call rt op network).1 = .error (.transport text) := by
  change ∃ text, (request rt op.okStatuses network).1 >>= op.read rt = _
  cases ends_request rt op.okStatuses network with
  | @decided j hj hbefore hat _ _ =>
    exact absurd ⟨⟨by omega, fun k hk => hbefore k (Nat.zero_le k) hk⟩, hat⟩ (h j)
  | exhausted _ _ hres =>
    obtain ⟨text, hr⟩ := hres
    exact ⟨text, by rw [hr]; rfl⟩

/-! ### Bodies that can be read -/

/-- The exceptions that the callers know. -/
def Expected {α : Type} (x : Http α) : Prop := ∀ e, x ≠ .error (.python e)

theorem expected_lift {α : Type} {x : Py α} : Expected (lift x) ↔ ∃ a, x = .ok a := by
  cases x with
  | ok a => simp [Expected, lift]
  | error e => simp [Expected, lift]

theorem expected_map {α β : Type} {f : α → β} {x : Http α} : Expected (f <$> x) ↔ Expected x := by
  cases x with
  | ok a => simp [Expected, Functor.map, Except.map]
  | error e => simp [Expected, Functor.map, Except.map]

/-- The value of a key is missing, or as it must be. -/
def Optional (fields : List (String × Json)) (key : String) (P : Json → Prop) : Prop :=
  ∀ v, Json.lookup fields key = some v → P v

/-- The body is a JSON text that the parser can take. -/
def Body.Holds (rt : Runtime) (body : Body) (x : Json) : Prop := body = .json x ∧ x.Fits rt.limits

theorem decode_eq_ok {body : Body} {v : Json} : body.decode rt = .ok v ↔ body.Holds rt v := by
  cases body with
  | json text =>
    simp only [Body.decode, Json.loads_eq_ok, Body.Holds, Body.json.injEq]
    exact and_congr_right fun h => by rw [h]
  | notJson => simp [Body.decode, Body.Holds]

/-- The chain goes on with the value of a key, or with the default. -/
theorem exists_get_bind {α : Type} {x default : Json} {key : String} {f : Json → Py α} :
    (∃ a, (x.get key default >>= f) = .ok a) ↔
      ∃ fields, x = .object fields ∧ ∃ a, f ((Json.lookup fields key).getD default) = .ok a := by
  constructor
  · rintro ⟨a, ha⟩
    obtain ⟨v, hv, ha⟩ := bind_eq_ok.mp ha
    obtain ⟨fields, rfl, rfl⟩ := Json.get_eq_ok.mp hv
    exact ⟨fields, rfl, a, ha⟩
  · rintro ⟨fields, rfl, a, ha⟩
    exact ⟨a, bind_eq_ok.mpr ⟨_, rfl, ha⟩⟩

/-- What is asked of a value that has a default which passes. -/
theorem getD_iff {fields : List (String × Json)} {key : String} (default : Json) {P : Json → Prop}
    (hdefault : P default) :
    P ((Json.lookup fields key).getD default) ↔ Optional fields key P := by
  unfold Optional
  cases Json.lookup fields key with
  | none => simpa using hdefault
  | some v => simp

/-- A token body: a dictionary with an access token, in which `expires_in` is a number if it is there. -/
def TokenBody (rt : Runtime) (body : Body) : Prop :=
  ∃ fields, body.Holds rt (.object fields) ∧ Json.lookup fields "access_token" ≠ none ∧
    Optional fields "expires_in" (Json.Integral rt.int)

theorem tokenBundle_iff {body : Body} :
    (∃ bundle, tokenBundle rt body = .ok bundle) ↔ TokenBody rt body := by
  constructor
  · rintro ⟨bundle, h⟩
    obtain ⟨v, hv, h⟩ := bind_eq_ok.mp h
    obtain ⟨accessToken, haccess, h⟩ := bind_eq_ok.mp h
    obtain ⟨refreshToken, -, h⟩ := bind_eq_ok.mp h
    obtain ⟨expires, hexpires, h⟩ := bind_eq_ok.mp h
    obtain ⟨n, hn, -⟩ := bind_eq_ok.mp h
    obtain ⟨fields, rfl, hlookup⟩ := Json.item_eq_ok.mp haccess
    refine ⟨fields, decode_eq_ok.mp hv, by simp [hlookup], ?_⟩
    rw [Json.get_object, Except.ok.injEq] at hexpires
    rw [← getD_iff (.int 3600) trivial, hexpires]
    exact Json.exists_toInt_eq_ok.mp ⟨n, hn⟩
  · rintro ⟨fields, hbody, haccess, hexpires⟩
    obtain ⟨accessToken, hlookup⟩ := Option.ne_none_iff_exists'.mp haccess
    rw [← getD_iff (.int 3600) trivial] at hexpires
    obtain ⟨n, hn⟩ := Json.exists_toInt_eq_ok.mpr hexpires
    have hdecode := decode_eq_ok.mpr hbody
    refine exists_bind_eq_ok ⟨.object fields, hdecode⟩ fun v hv => ?_
    obtain rfl := Except.ok.inj (hdecode.symm.trans hv)
    refine exists_bind_eq_ok ⟨accessToken, Json.item_eq_ok.mpr ⟨fields, rfl, hlookup⟩⟩ fun _ _ => ?_
    refine exists_bind_eq_ok ⟨_, rfl⟩ fun _ _ => exists_bind_eq_ok ⟨_, rfl⟩ fun expires he => ?_
    obtain rfl := Except.ok.inj he
    exact exists_bind_eq_ok ⟨n, hn⟩ fun _ _ => exists_bind_eq_ok ⟨_, rfl⟩ fun _ _ => ⟨_, rfl⟩

/-- A busy block: a dictionary with two times that can be parsed. -/
def BlockTime (rt : Runtime) (block : Json) (key : String) : Prop :=
  ∃ fields s, block = .object fields ∧ Json.lookup fields key = some (.str s) ∧
    rt.fromisoformat (s.replace "Z" "+00:00") ≠ none

theorem blockTime_iff {block : Json} {key : String} :
    (∃ t, blockTime rt block key = .ok t) ↔ BlockTime rt block key := by
  constructor
  · rintro ⟨t, h⟩
    obtain ⟨time, htime, h⟩ := bind_eq_ok.mp h
    obtain ⟨text, htext, h⟩ := bind_eq_ok.mp h
    obtain ⟨fields, rfl, hlookup⟩ := Json.item_eq_ok.mp htime
    cases time with
    | str s =>
      refine ⟨fields, s, rfl, hlookup, fun hnone => ?_⟩
      obtain rfl := Except.ok.inj htext
      simp [fromisoformat, hnone] at h
    | _ => cases htext
  · rintro ⟨fields, s, rfl, hlookup, hparse⟩
    obtain ⟨t, ht⟩ := Option.ne_none_iff_exists'.mp hparse
    refine ⟨t, bind_eq_ok.mpr ⟨_, Json.item_eq_ok.mpr ⟨fields, rfl, hlookup⟩, ?_⟩⟩
    exact bind_eq_ok.mpr ⟨_, rfl, by simp [fromisoformat, ht]⟩

theorem busyBlock_iff {block : Json} : (∃ b, busyBlock rt block = .ok b) ↔
    BlockTime rt block "start" ∧ BlockTime rt block "end" := by
  rw [← blockTime_iff, ← blockTime_iff]
  constructor
  · rintro ⟨b, h⟩
    obtain ⟨start, hstart, h⟩ := bind_eq_ok.mp h
    obtain ⟨stop, hstop, -⟩ := bind_eq_ok.mp h
    exact ⟨⟨start, hstart⟩, stop, hstop⟩
  · rintro ⟨⟨start, hstart⟩, stop, hstop⟩
    exact ⟨_, bind_eq_ok.mpr ⟨start, hstart, bind_eq_ok.mpr ⟨stop, hstop, rfl⟩⟩⟩

/-- A list of blocks; a value without any part passes too. -/
def BusyList (rt : Runtime) (busy : Json) : Prop :=
  (∃ blocks, busy = .array blocks ∧
    ∀ b ∈ blocks, BlockTime rt b "start" ∧ BlockTime rt b "end") ∨
  busy = .object [] ∨ busy = .str ""

theorem not_blockTime_str {s key : String} : ¬ BlockTime rt (.str s) key := by
  rintro ⟨fields, t, h, -⟩
  cases h

theorem busyBlocks_iff {cal : Json} : (∃ blocks, busyBlocks rt cal = .ok blocks) ↔
    ∃ fields, cal = .object fields ∧ Optional fields "busy" (BusyList rt) := by
  have hlist : ∀ busy : Json, (∃ blocks, (busy.iter >>= fun l => l.mapM (busyBlock rt)) = .ok blocks) ↔
      BusyList rt busy := by
    intro busy
    constructor
    · rintro ⟨blocks, h⟩
      obtain ⟨items, hitems, h⟩ := bind_eq_ok.mp h
      have hall := exists_mapM_eq_ok.mp ⟨blocks, h⟩
      simp only [busyBlock_iff] at hall
      -- the parts of a dictionary and of a string are strings
      rcases Json.iter_eq_ok.mp hitems with rfl | ⟨fields, rfl, rfl⟩ | ⟨s, rfl, rfl⟩
      · exact .inl ⟨items, rfl, hall⟩
      · refine .inr (.inl ?_)
        cases fields with
        | nil => rfl
        | cons f fields => exact absurd (hall (.str f.1) (by simp [List.eraseDups_cons])).1 not_blockTime_str
      · refine .inr (.inr ?_)
        cases hs : s.toList with
        | nil => rw [String.toList_eq_nil_iff.mp hs]
        | cons c cs => exact absurd (hall (.str (String.singleton c)) (by simp [hs])).1 not_blockTime_str
    · rintro (⟨blocks, rfl, hall⟩ | rfl | rfl)
      · obtain ⟨bs, hbs⟩ := exists_mapM_eq_ok.mpr fun b hb => busyBlock_iff.mpr (hall b hb)
        exact ⟨bs, bind_eq_ok.mpr ⟨blocks, rfl, hbs⟩⟩
      · exact ⟨[], rfl⟩
      · exact ⟨[], rfl⟩
  unfold busyBlocks
  rw [exists_get_bind]
  refine exists_congr fun fields => and_congr_right fun _ => ?_
  rw [hlist]
  exact getD_iff (P := BusyList rt) _ (.inl ⟨[], rfl, fun b hb => by simp at hb⟩)

/-- A calendar: a dictionary that has errors, or a list of blocks. -/
def CalendarEntry (rt : Runtime) (cal : Json) : Prop :=
  ∃ entries, cal = .object entries ∧
    ((∃ errors, Json.lookup entries "errors" = some errors ∧ errors.truthy) ∨
      Optional entries "busy" (BusyList rt))

def Calendars (rt : Runtime) (calendars : Json) : Prop :=
  ∃ cs, calendars = .object cs ∧ Optional cs "primary" (CalendarEntry rt)

/-- A free/busy body: dictionaries down to the calendar. -/
def FreeBusyBody (rt : Runtime) (body : Body) : Prop :=
  ∃ fields, body.Holds rt (.object fields) ∧ Optional fields "calendars" (Calendars rt)

theorem optional_nil {key : String} {P : Json → Prop} : Optional [] key P := by
  intro v hv
  simp [Json.lookup] at hv

/-- What is made of the calendar in the body. -/
theorem expected_of_calendar {cal : Json} :
    Expected (do
      let errors ← lift (cal.get "errors" .null)
      if errors.truthy then throw (.transport ("freeBusy returned errors: " ++ rt.str errors))
      else lift (busyBlocks rt cal)) ↔ CalendarEntry rt cal := by
  unfold CalendarEntry
  cases cal with
  | object entries =>
    have hbusy : Expected (lift (busyBlocks rt (.object entries))) ↔ _ :=
      expected_lift.trans busyBlocks_iff
    simp only [Json.object.injEq, exists_eq_left'] at hbusy ⊢
    change Expected (if ((Json.lookup entries "errors").getD .null).truthy then _ else _) ↔ _
    split_ifs with htruthy
    · refine ⟨fun _ => .inl ?_, fun _ e he => ?_⟩
      · cases hlookup : Json.lookup entries "errors" with
        | none => simp [hlookup, Json.truthy] at htruthy
        | some errors => exact ⟨errors, rfl, by simpa [hlookup] using htruthy⟩
      · cases he
    · rw [hbusy]
      refine ⟨.inr, fun h => h.resolve_left ?_⟩
      rintro ⟨errors, hlookup, htrue⟩
      simp [hlookup, htrue] at htruthy
  | _ => simp [Expected, Json.get, lift, bind, Except.bind]

/-- The calendar in a body is the one of the documented path, or an empty one. -/
theorem exists_primaryCalendar_iff {body : Body} :
    (∃ cal, primaryCalendar rt body = .ok cal ∧ CalendarEntry rt cal) ↔ FreeBusyBody rt body := by
  have hentry : CalendarEntry rt (.object []) := ⟨[], rfl, .inr optional_nil⟩
  have hcals : Calendars rt (.object []) := ⟨[], rfl, optional_nil⟩
  constructor
  · rintro ⟨cal, h, hcal⟩
    obtain ⟨v, hv, h⟩ := bind_eq_ok.mp h
    obtain ⟨calendars, hcalendars, h⟩ := bind_eq_ok.mp h
    obtain ⟨fields, rfl, rfl⟩ := Json.get_eq_ok.mp hcalendars
    obtain ⟨cs, hcs, rfl⟩ := Json.get_eq_ok.mp h
    refine ⟨fields, decode_eq_ok.mp hv, (getD_iff _ hcals).mp ⟨cs, hcs, ?_⟩⟩
    exact (getD_iff _ hentry).mp hcal
  · rintro ⟨fields, hbody, h⟩
    obtain ⟨cs, hcs, hprimary⟩ := (getD_iff _ hcals).mpr h
    refine ⟨_, bind_eq_ok.mpr ⟨.object fields, decode_eq_ok.mpr hbody, bind_eq_ok.mpr ⟨_, rfl, ?_⟩⟩,
      (getD_iff _ hentry).mpr hprimary⟩
    exact Json.get_eq_ok.mpr ⟨cs, hcs, rfl⟩

theorem freeBusyBlocks_iff {body : Body} : Expected (freeBusyBlocks rt body) ↔ FreeBusyBody rt body := by
  rw [← exists_primaryCalendar_iff]
  unfold freeBusyBlocks
  cases hcal : primaryCalendar rt body with
  | error e => simp [Expected, lift, bind, Except.bind]
  | ok cal =>
    simp only [Except.ok.injEq, exists_eq_left']
    exact expected_of_calendar

/-! ### Events -/

/-- An entry point with a link to a video call. -/
def IsVideo (ep : Json) : Prop := videoLink ep = .ok true

/-- The entry points up to the first video are dictionaries. -/
def EntryPoints (items : List Json) : Prop :=
  ∀ before ep after, items = before ++ ep :: after → (∀ x ∈ before, ¬ IsVideo x) → ep.IsObject

theorem exists_videoLink {ep : Json} : (∃ b, videoLink ep = .ok b) ↔ ep.IsObject := by
  cases ep with
  | object fields =>
    simp only [Json.IsObject, Json.object.injEq, exists_eq', iff_true]
    refine exists_bind_eq_ok ⟨_, rfl⟩ fun type _ => ?_
    split
    · exact ⟨_, rfl⟩
    · exact ⟨_, rfl⟩
  | _ => simp [videoLink, Json.get, Json.IsObject, bind, Except.bind]

/-- A video has a link. -/
theorem exists_uri_of_isVideo {ep : Json} (h : IsVideo ep) : ∃ v, ep.item "uri" = .ok v := by
  obtain ⟨type, htype, h⟩ := bind_eq_ok.mp h
  obtain ⟨fields, rfl, -⟩ := Json.get_eq_ok.mp htype
  split at h
  · obtain ⟨uri, huri, h⟩ := bind_eq_ok.mp h
    rw [Json.get_object, Except.ok.injEq] at huri
    cases hlookup : Json.lookup fields "uri" with
    | none =>
      rw [hlookup] at huri
      subst huri
      simp [Json.truthy, pure, Except.pure] at h
    | some v => exact ⟨v, Json.item_eq_ok.mpr ⟨fields, rfl, hlookup⟩⟩
  · simp [pure, Except.pure] at h

theorem entryPoints_cons {ep : Json} {rest : List Json} :
    EntryPoints (ep :: rest) ↔ ep.IsObject ∧ (¬ IsVideo ep → EntryPoints rest) := by
  constructor
  · intro h
    refine ⟨h [] ep rest rfl (by simp), fun hno before ep' after heq hbefore => ?_⟩
    refine h (ep :: before) ep' after (by rw [heq]; rfl) fun x hx => ?_
    rcases List.mem_cons.mp hx with rfl | hx
    · exact hno
    · exact hbefore x hx
  · rintro ⟨hobj, hrest⟩ before ep' after heq hbefore
    cases before with
    | nil =>
      obtain ⟨rfl, -⟩ := List.cons.inj heq
      exact hobj
    | cons x before =>
      obtain ⟨rfl, htail⟩ := List.cons.inj heq
      exact hrest (hbefore _ (by simp)) before ep' after htail fun y hy => hbefore y (by simp [hy])

theorem findVideo_iff (link : Json) {items : List Json} :
    (∃ v, findVideo link items = .ok v) ↔ EntryPoints items := by
  induction items with
  | nil =>
    refine ⟨fun _ before ep after h => by simp at h, fun _ => ⟨link, rfl⟩⟩
  | cons ep rest ih =>
    rw [entryPoints_cons, ← ih]
    constructor
    · rintro ⟨v, h⟩
      obtain ⟨video, hvideo, h⟩ := bind_eq_ok.mp h
      refine ⟨exists_videoLink.mp ⟨video, hvideo⟩, fun hno => ?_⟩
      cases video with
      | true => exact absurd hvideo hno
      | false => exact ⟨v, h⟩
    · rintro ⟨hobj, hrest⟩
      refine exists_bind_eq_ok (exists_videoLink.mpr hobj) fun video hvideo => ?_
      cases video with
      | true => exact exists_uri_of_isVideo hvideo
      | false => exact hrest fun h => by rw [IsVideo, hvideo] at h; simp at h

/-- A list of entry points; a value without any part passes too. -/
def EntryList (entryPoints : Json) : Prop :=
  (∃ items, entryPoints = .array items ∧ EntryPoints items) ∨
    entryPoints = .object [] ∨ entryPoints = .str ""

/-- The link to the meeting: given in short, or searched in the conference data. -/
def HasLink (fields : List (String × Json)) : Prop :=
  (∃ link, Json.lookup fields "hangoutLink" = some link ∧ link.truthy) ∨
    Optional fields "conferenceData" fun conference =>
      ∃ cs, conference = .object cs ∧ Optional cs "entryPoints" EntryList

theorem not_entryPoints_str {s : String} {rest : List Json} : ¬ EntryPoints (.str s :: rest) := by
  intro h
  obtain ⟨fields, hf⟩ := (entryPoints_cons.mp h).1
  cases hf

theorem iter_findVideo_iff {link entryPoints : Json} :
    (∃ v, (entryPoints.iter >>= findVideo link) = .ok v) ↔ EntryList entryPoints := by
  constructor
  · rintro ⟨v, h⟩
    obtain ⟨items, hitems, h⟩ := bind_eq_ok.mp h
    have hall := (findVideo_iff link).mp ⟨v, h⟩
    rcases Json.iter_eq_ok.mp hitems with rfl | ⟨fields, rfl, rfl⟩ | ⟨s, rfl, rfl⟩
    · exact .inl ⟨items, rfl, hall⟩
    · refine .inr (.inl ?_)
      cases fields with
      | nil => rfl
      | cons f fields =>
        rw [List.map_cons, List.eraseDups_cons, List.map_cons] at hall
        exact absurd hall not_entryPoints_str
    · refine .inr (.inr ?_)
      cases hs : s.toList with
      | nil => rw [String.toList_eq_nil_iff.mp hs]
      | cons c cs =>
        rw [hs] at hall
        exact absurd hall not_entryPoints_str
  · rintro (⟨items, rfl, hall⟩ | rfl | rfl)
    · obtain ⟨v, hv⟩ := (findVideo_iff link).mpr hall
      exact ⟨v, bind_eq_ok.mpr ⟨items, rfl, hv⟩⟩
    · exact ⟨link, rfl⟩
    · exact ⟨link, rfl⟩

theorem meetingLink_iff {fields : List (String × Json)} :
    (∃ link, meetingLink (.object fields) = .ok link) ↔ HasLink fields := by
  have hnil : EntryList (.array []) := .inl ⟨[], rfl, fun before ep after h => by simp at h⟩
  unfold meetingLink HasLink
  change (∃ link, (if ((Json.lookup fields "hangoutLink").getD .null).truthy then _ else _) = _) ↔ _
  split_ifs with htruthy
  · refine ⟨fun _ => .inl ?_, fun _ => ⟨_, rfl⟩⟩
    cases hlookup : Json.lookup fields "hangoutLink" with
    | none => simp [hlookup, Json.truthy] at htruthy
    | some link => exact ⟨link, rfl, by simpa [hlookup] using htruthy⟩
  · have hno : ¬ ∃ link, Json.lookup fields "hangoutLink" = some link ∧ link.truthy := by
      rintro ⟨link, hlookup, htrue⟩
      simp [hlookup, htrue] at htruthy
    rw [or_iff_right hno, ← getD_iff (.object [])
      ⟨[], rfl, fun v hv => by simp [Json.lookup] at hv⟩, exists_get_bind]
    simp only [Json.object.injEq, exists_eq_left']
    rw [exists_get_bind]
    refine exists_congr fun cs => and_congr_right fun _ => ?_
    rw [iter_findVideo_iff]
    exact getD_iff (P := EntryList) _ hnil

/-- An event body: a dictionary with an id and a link that can be looked for. -/
def EventBody (rt : Runtime) (body : Body) : Prop :=
  ∃ fields, body.Holds rt (.object fields) ∧ Json.lookup fields "id" ≠ none ∧ HasLink fields

theorem calendarEvent_iff {body : Body} :
    (∃ e, calendarEvent rt body = .ok e) ↔ EventBody rt body := by
  constructor
  · rintro ⟨e, h⟩
    obtain ⟨v, hv, h⟩ := bind_eq_ok.mp h
    obtain ⟨link, hlink, h⟩ := bind_eq_ok.mp h
    obtain ⟨eventId, hid, -⟩ := bind_eq_ok.mp h
    obtain ⟨fields, rfl, hlookup⟩ := Json.item_eq_ok.mp hid
    exact ⟨fields, decode_eq_ok.mp hv, by simp [hlookup], meetingLink_iff.mp ⟨link, hlink⟩⟩
  · rintro ⟨fields, hbody, hid, hlink⟩
    obtain ⟨eventId, hlookup⟩ := Option.ne_none_iff_exists'.mp hid
    have hdecode := decode_eq_ok.mpr hbody
    refine exists_bind_eq_ok ⟨.object fields, hdecode⟩ fun v hv => ?_
    obtain rfl := Except.ok.inj (hdecode.symm.trans hv)
    refine exists_bind_eq_ok (meetingLink_iff.mpr hlink) fun _ _ => ?_
    refine exists_bind_eq_ok ⟨eventId, Json.item_eq_ok.mpr ⟨fields, rfl, hlookup⟩⟩ fun _ _ => ?_
    exact exists_bind_eq_ok ⟨_, rfl⟩ fun _ _ => ⟨_, rfl⟩

/-! ### Outcomes that can be read -/

/-- What an operation can read of a success. -/
def Operation.Readable (rt : Runtime) : Operation → Body → Prop
  | .createEvent, body => EventBody rt body
  | .freeBusy, body => FreeBusyBody rt body
  | .refresh, body => TokenBody rt body
  | .deleteEvent, _ => True

theorem expected_read (rt : Runtime) (op : Operation) {body : Body} :
    Expected (op.read rt body) ↔ op.Readable rt body := by
  cases op with
  | createEvent => exact expected_map.trans (expected_lift.trans calendarEvent_iff)
  | freeBusy => exact expected_map.trans freeBusyBlocks_iff
  | refresh => exact expected_map.trans (expected_lift.trans tokenBundle_iff)
  | deleteEvent => simp [Operation.read, Operation.Readable, Expected]

/-- The parser does not stop at the recursion limit, and what it returns is a dictionary. -/
def Body.Dictionary (rt : Runtime) (body : Body) : Prop :=
  ∀ text, body = .json text →
    Json.loads rt.limits text ≠ .error .recursionError ∧ (text.Fits rt.limits → text.IsObject)

/-- An outcome that an operation can take. -/
def Outcome.Palatable (rt : Runtime) (op : Operation) : Outcome → Prop
  | .response status body =>
    if status < 400 ∨ status ∈ op.okStatuses then op.Readable rt body
    else status = 400 ∨ status = 401 → body.Dictionary rt
  | _ => True

theorem exists_safeJson_iff {body : Body} :
    (∃ x, safeJson rt body = .ok x ∧ x.IsObject) ↔ body.Dictionary rt := by
  unfold safeJson Body.Dictionary
  cases body with
  | notJson => simp [Body.decode, Json.IsObject]
  | json text =>
    simp only [Body.decode, Body.json.injEq, forall_eq']
    cases hloads : Json.loads rt.limits text with
    | ok x =>
      obtain ⟨rfl, hfits⟩ := Json.loads_eq_ok.mp hloads
      simp [hfits]
    | error e =>
      have hnot : ¬ text.Fits rt.limits := fun hfits => by
        rw [Json.loads_eq_ok.mpr ⟨rfl, hfits⟩] at hloads
        cases hloads
      rcases Json.loads_error hloads with rfl | rfl
      · simp [hnot, Json.IsObject]
      · simp

/-- A dictionary is refused with one of the two exceptions. -/
theorem refusal_object (status : ℕ) (fields : List (String × Json)) :
    refusal rt status (.object fields) = .ok
      (if status = 401 ∨ deadGrant ((Json.lookup fields "error").getD .null) then
        .auth ((Json.lookup fields "error").getD (.str ("HTTP " ++ toString status)))
      else .transport ("HTTP " ++ toString status ++ ": " ++
        rt.str ((Json.lookup fields "error").getD .null))) := by
  unfold refusal
  by_cases h401 : status = 401
  · rw [if_pos h401, if_pos (.inl h401)]
    rfl
  · rw [if_neg h401]
    change (if deadGrant ((Json.lookup fields "error").getD .null) then _ else _) = _
    by_cases hdead : deadGrant ((Json.lookup fields "error").getD .null)
    · rw [if_pos hdead, if_pos (.inr hdead)]
      rfl
    · rw [if_neg hdead, if_neg (by simp [h401, hdead])]
      rfl

/-- Anything else raises another exception. -/
theorem refusal_cases (rt : Runtime) (status : ℕ) (body : Json) :
    (body.IsObject ∧ ∃ e, refusal rt status body = .ok e ∧ ∀ x, e ≠ .python x) ∨
      ¬ body.IsObject ∧ ∃ e, refusal rt status body = .error e := by
  cases body with
  | object fields =>
    refine .inl ⟨⟨fields, rfl⟩, _, refusal_object status fields, fun x => ?_⟩
    split_ifs <;> simp
  | _ =>
    refine .inr ⟨by simp [Json.IsObject], .attributeError, ?_⟩
    unfold refusal
    by_cases h401 : status = 401
    · rw [if_pos h401]
      rfl
    · rw [if_neg h401]
      rfl

/-- What is raised for a 400 or a 401. -/
theorem refused_cases (rt : Runtime) (status : ℕ) (body : Body) :
    (body.Dictionary rt ∧ ∃ e, (safeJson rt body >>= refusal rt status) = .ok e ∧ ∀ x, e ≠ .python x) ∨
      ¬ body.Dictionary rt ∧ ∃ e, (safeJson rt body >>= refusal rt status) = .error e := by
  by_cases hdict : body.Dictionary rt
  · obtain ⟨x, hx, hobj⟩ := exists_safeJson_iff.mpr hdict
    rw [hx]
    rcases refusal_cases rt status x with ⟨-, hrefused⟩ | ⟨hnot, -⟩
    · exact .inl ⟨hdict, hrefused⟩
    · exact absurd hobj hnot
  · refine .inr ⟨hdict, ?_⟩
    cases hx : safeJson rt body with
    | error e => exact ⟨e, rfl⟩
    | ok x =>
      rcases refusal_cases rt status x with ⟨hobj, -⟩ | ⟨-, hraised⟩
      · exact absurd (exists_safeJson_iff.mp ⟨x, hx, hobj⟩) hdict
      · exact hraised

/-- **What is made of an outcome that is not retried is expected exactly when it can be taken.** -/
theorem expected_answerOf {o : Outcome} (h : ¬ o.Retried op.okStatuses) :
    Expected (answerOf rt op o) ↔ o.Palatable rt op := by
  cases o with
  | transportError text => exact absurd trivial h
  | timeout text => exact absurd trivial h
  | response status body =>
    simp only [Outcome.Retried] at h
    unfold answerOf
    simp only [attempt, Outcome.Palatable]
    split_ifs with h1 h2 h3
    · exact expected_read rt op
    · rw [forall_prop_of_true h2]
      rcases refused_cases rt status body with ⟨hdict, e, he, hne⟩ | ⟨hdict, e, he⟩
      · rw [he]
        simpa [Expected, hdict] using hne
      · rw [he]
        simpa [Expected] using hdict
    · exact ⟨fun _ h => absurd h h2, fun _ e he => by cases he⟩
    · push Not at h1
      exact absurd ⟨h1.1, h1.2, by omega⟩ h

/-! ### The calls -/

/-- What the callers rely on: three attempts at most, none after an authorization error, and no exception
but the two. -/
structure WellBehaved (rt : Runtime) (op : Operation) (network : ℕ → Outcome) : Prop where
  attempts : (call rt op network).2 ≤ 3
  final : ∀ i < (call rt op network).2, (network i).Unauthorized → i + 1 = (call rt op network).2
  expected : Expected (call rt op network).1

/-- A runtime without any library. -/
def bareRuntime : Runtime := ⟨{ nesting := 990 }, fun _ => none, fun _ => none, fun _ => ""⟩

/-- One request: whether the server has applied it, and what the client sees of it. -/
structure Exchange where
  applied : Bool
  outcome : Outcome

/-- The events that a call of `create_event` leaves: every request that is applied creates one. -/
def created (rt : Runtime) (network : ℕ → Exchange) : ℕ :=
  ((List.range (call rt .createEvent fun i => (network i).outcome).2).filter fun i =>
    (network i).applied).length

/-- At most one event is created, and none if the call raises. -/
def CreatedOnce (rt : Runtime) (network : ℕ → Exchange) : Prop :=
  created rt network ≤ 1 ∧
    ∀ e, (call rt .createEvent fun i => (network i).outcome).1 = .error e → created rt network = 0

/-- The request is made and answered by an event that can be read. -/
def Answered (rt : Runtime) (network : ℕ → Exchange) (i : ℕ) : Prop :=
  Made [] (fun i => (network i).outcome) i ∧
    ∃ status body, (network i).outcome = .response status body ∧ status < 400 ∧ EventBody rt body

/-- Every request that is made and applied is answered by an event that can be read, or is the only one
that is applied, and a later one is answered so. -/
def NothingLost (rt : Runtime) (network : ℕ → Exchange) : Prop :=
  ∀ i, Made [] (fun i => (network i).outcome) i → (network i).applied →
    Answered rt network i ∨ ∃ j, i < j ∧ Answered rt network j ∧
      ∀ k, Made [] (fun i => (network i).outcome) k → (network k).applied → k = i

variable {exchanges : ℕ → Exchange}

theorem mem_applied {i : ℕ} :
    i ∈ (List.range (call rt .createEvent fun i => (exchanges i).outcome).2).filter
        (fun i => (exchanges i).applied) ↔
      Made [] (fun i => (exchanges i).outcome) i ∧ (exchanges i).applied := by
  rw [List.mem_filter, List.mem_range]
  exact and_congr_left fun _ => lt_attempts_iff .createEvent

/-- **The call returns exactly when a request is answered.** -/
theorem returns_iff (rt : Runtime) : (∃ v, (call rt .createEvent fun i => (exchanges i).outcome).1 = .ok v) ↔
    ∃ i, Answered rt exchanges i := by
  constructor
  · rintro ⟨v, hv⟩
    by_cases hex : ∃ i, Decides [] (fun i => (exchanges i).outcome) i
    · obtain ⟨i, hi⟩ := hex
      refine ⟨i, hi.1, ?_⟩
      rw [call_of_decides .createEvent hi] at hv
      unfold answerOf at hv
      cases ho : (exchanges i).outcome with
      | response status body =>
        simp only [ho, attempt] at hv
        split_ifs at hv with h1 h2 h3
        · refine ⟨status, body, rfl, by simpa [Operation.okStatuses] using h1, ?_⟩
          exact (expected_read rt .createEvent).mp
            (show Expected (Operation.createEvent.read rt body) from fun e he => by
              rw [show Operation.createEvent.read rt body = .ok v from hv] at he
              cases he)
        · rcases refused_cases rt status body with ⟨-, e, he, -⟩ | ⟨-, e, he⟩
          · rw [he] at hv
            cases hv
          · rw [he] at hv
            cases hv
      | _ =>
        rw [ho] at hv
        cases hv
    · obtain ⟨text, htext⟩ := call_of_none rt .createEvent fun i hi => hex ⟨i, hi⟩
      rw [htext] at hv
      cases hv
  · rintro ⟨i, hmade, status, body, ho, hlt, hbody⟩
    have hd : Decides [] (fun i => (exchanges i).outcome) i := by
      refine ⟨hmade, ?_⟩
      simp only [ho, Outcome.Retried]
      omega
    obtain ⟨e, he⟩ := calendarEvent_iff.mpr hbody
    refine ⟨.event e, ?_⟩
    rw [call_of_decides .createEvent hd]
    simp only [answerOf, ho, attempt, if_pos (Or.inl hlt : status < 400 ∨ _)]
    simp only [Operation.read, he]
    rfl

/-- Only the last request that is made is answered. -/
theorem Answered.le {i j : ℕ} (h : Answered rt exchanges i)
    (hj : Made [] (fun i => (exchanges i).outcome) j) : j ≤ i := by
  obtain ⟨-, status, body, ho, hlt, -⟩ := h
  by_contra hn
  have hretried := hj.2 i (by omega)
  simp only [ho, Outcome.Retried] at hretried
  omega

/-- A list without duplicates whose elements are all equal. -/
theorem length_le_one_iff {l : List ℕ} (h : l.Nodup) :
    l.length ≤ 1 ↔ ∀ i ∈ l, ∀ j ∈ l, i = j := by
  match l with
  | [] => simp
  | [i] => simp
  | i :: j :: l =>
    have hne : i ≠ j := by
      have := (List.nodup_cons.mp h).1
      simp only [List.mem_cons, not_or] at this
      exact this.1
    simp only [List.length_cons, List.mem_cons]
    refine ⟨fun hle => by omega, fun hall => absurd ?_ hne⟩
    exact hall i (.inl rfl) j (.inr (.inl rfl))

/-- **One event at most, and none if the call raises, exactly when no applied request is lost.** -/
theorem createdOnce_iff (rt : Runtime) (network : ℕ → Exchange) :
    CreatedOnce rt network ↔ NothingLost rt network := by
  -- at most one request is applied
  have hone : created rt network ≤ 1 ↔
      ∀ i j, Made [] (fun i => (network i).outcome) i → (network i).applied →
        Made [] (fun i => (network i).outcome) j → (network j).applied → i = j := by
    have hnodup := (List.nodup_range (n := (call rt .createEvent fun i => (network i).outcome).2)).filter
      fun i => (network i).applied
    rw [created, length_le_one_iff hnodup]
    simp only [mem_applied]
    exact ⟨fun h i j hi hai hj haj => h i ⟨hi, hai⟩ j ⟨hj, haj⟩,
      fun h i hi j hj => h i j hi.1 hi.2 hj.1 hj.2⟩
  have hnone : created rt network = 0 ↔
      ∀ i, Made [] (fun i => (network i).outcome) i → ¬ (network i).applied := by
    rw [created, List.length_eq_zero_iff, List.eq_nil_iff_forall_not_mem]
    simp only [mem_applied, not_and]
  constructor
  · rintro ⟨hle, hraise⟩ i hi hai
    -- the call returns, so that a request is answered
    have hret : ∃ v, (call rt .createEvent fun i => (network i).outcome).1 = .ok v := by
      cases hres : (call rt .createEvent fun i => (network i).outcome).1 with
      | ok v => exact ⟨v, rfl⟩
      | error e => exact absurd hai (hnone.mp (hraise e hres) i hi)
    obtain ⟨j, hj⟩ := (returns_iff rt).mp hret
    rcases Nat.eq_or_lt_of_le (hj.le hi) with rfl | hlt
    · exact .inl hj
    · exact .inr ⟨j, hlt, hj, fun k hk hak => hone.mp hle k i hk hak hi hai⟩
  · intro h
    refine ⟨hone.mpr fun i j hi hai hj haj => ?_, fun e he => hnone.mpr fun i hi hai => ?_⟩
    · have hsame : ∀ i j, Made [] (fun i => (network i).outcome) i → (network i).applied →
          Made [] (fun i => (network i).outcome) j → (network j).applied → ¬ i < j := by
        intro i j hi hai hj haj hlt
        rcases h i hi hai with hans | ⟨-, -, -, honly⟩
        · have := hans.le hj
          omega
        · have := honly j hj haj
          omega
      have h1 := hsame i j hi hai hj haj
      have h2 := hsame j i hj haj hi hai
      omega
    · have hans : ∃ j, Answered rt network j := by
        rcases h i hi hai with hans | ⟨j, -, hans, -⟩
        · exact ⟨i, hans⟩
        · exact ⟨j, hans⟩
      obtain ⟨v, hv⟩ := (returns_iff rt).mpr hans
      rw [hv] at he
      cases he

/-- The answer to a request that has created an event. -/
def eventAnswer : Outcome :=
  .response 200 (.json (.object [("id", .str "event"), ("hangoutLink", .str "link")]))

/-- The first request is applied, but its answer does not arrive in time; the second one is applied too. -/
def lostAnswer (i : ℕ) : Exchange :=
  ⟨true, if i = 0 then .timeout "read timed out" else eventAnswer⟩

/-- **Two events are left** when the answer to the first request is lost, and the call returns. -/
theorem creates_twice : ¬ CreatedOnce bareRuntime lostAnswer ∧ created bareRuntime lostAnswer = 2 ∧
    ∃ v, (call bareRuntime .createEvent fun i => (lostAnswer i).outcome).1 = .ok v := by
  have htwo : created bareRuntime lostAnswer = 2 := rfl
  refine ⟨fun h => ?_, htwo, _, rfl⟩
  have := h.1
  omega

end InterviewScheduler.Calendar.Client
