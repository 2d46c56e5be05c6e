import InterviewScheduler.Frontend.Session

/-! # Logouts and stale refreshes

After a logout the storage should be empty until the next login, and a refresh that fails should leave
alone what a later login stored. The code checks neither: each is kept exactly as long as no event comes
at which it fails, and such events do come. -/

namespace InterviewScheduler.Frontend

/-! ### Properties of a run -/

/-- `P` holds of every event of a run, of the tab before it and of the tab after it. -/
def Throughout (P : Tab → Event → Tab → Prop) : Tab → List Event → Prop
  | _, [] => True
  | tab, e :: events => ∀ tab', step tab e = some tab' → P tab e tab' ∧ Throughout P tab' events

theorem Throughout.of_step {P : Tab → Event → Tab → Prop} {e : Event} {tab' tab'' : Tab} :
    ∀ {events : List Event} {tab : Tab}, Throughout P tab (events ++ [e]) →
      run tab events = some tab' → step tab' e = some tab'' → P tab' e tab''
  | [], tab, h, hrun, hstep => by
    cases hrun
    exact (h tab'' hstep).1
  | e₀ :: events, tab, h, hrun, hstep => by
    obtain ⟨next, hnext, hrest⟩ := Option.bind_eq_some_iff.mp hrun
    exact Throughout.of_step (h next hnext).2 hrest hstep

/-- A run lemma: two properties that agree on every step from a tab where an invariant holds agree on
every run from such a tab, when the steps at which they hold keep the invariant. -/
theorem throughout_iff {P Q : Tab → Event → Tab → Prop} (Inv : Tab → Prop)
    (hstep : ∀ tab e tab', Inv tab → step tab e = some tab' → (P tab e tab' ↔ Q tab e tab'))
    (hkeep : ∀ tab e tab', Inv tab → step tab e = some tab' → P tab e tab' → Inv tab') :
    ∀ (events : List Event) (tab : Tab), Inv tab →
      (Throughout P tab events ↔ Throughout Q tab events)
  | [], _, _ => Iff.rfl
  | e :: events, tab, hinv => by
    constructor
    · intro h tab' hs
      obtain ⟨hp, hrest⟩ := h tab' hs
      have hinv' := hkeep tab e tab' hinv hs hp
      exact ⟨(hstep tab e tab' hinv hs).mp hp, (throughout_iff Inv hstep hkeep events tab' hinv').mp hrest⟩
    · intro h tab' hs
      obtain ⟨hq, hrest⟩ := h tab' hs
      have hp := (hstep tab e tab' hinv hs).mpr hq
      have hinv' := hkeep tab e tab' hinv hs hp
      exact ⟨hp, (throughout_iff Inv hstep hkeep events tab' hinv').mpr hrest⟩

/-! ### The two properties -/

/-- No token is in storage between a logout and the next login. -/
def LogoutFinal (tab : Tab) : Prop :=
  tab.history.loggedOut = true → tab.storage.access = none ∧ tab.storage.refresh = none

/-- The events by which a refresh fails: its fetch or its answer is no good, or a request learns of it. -/
inductive Fails (tab : Tab) : Event → Refresh → Prop where
  | fetched {r : ℕ} {job : Refresh} {res : Fetched} (hr : tab.refreshes[r]? = some job)
      (hres : res.ok = false) : Fails tab (.refreshFetched r res) job
  | read {r : ℕ} {job : Refresh} {body : Option (Option String)} (hr : tab.refreshes[r]? = some job)
      (hbody : truthy (body.getD none) = false) : Fails tab (.refreshRead r body) job
  | reported {i r : ℕ} {q : Request} {job : Refresh} (hi : tab.requests[i]? = some q)
      (hq : q.phase = .awaiting (some r)) (hr : tab.refreshes[r]? = some job)
      (hjob : job.phase = .done none) : Fails tab (.resume i) job

/-- A refresh that started with the refresh token of an earlier session removes nothing, by failing, that
a later login stored. -/
def StaleHarmless (tab : Tab) (e : Event) (tab' : Tab) : Prop :=
  ∀ job n, Fails tab e job → job.token ≠ none → job.logins < n →
    (tab.history.accessFrom = some n → tab'.storage.access = tab.storage.access) ∧
      (tab.history.refreshFrom = some n → tab'.storage.refresh = tab.storage.refresh)

/-- The answer of a refresh is stored. -/
def Answers (e : Event) : Prop :=
  ∃ r accessToken, e = .refreshRead r (some (some accessToken)) ∧ truthy (some accessToken) = true

/-- No answer of a refresh is stored in a tab that is logged out, and no refresh fails while the storage
holds a token of a login that came after its start. -/
def Timely (tab : Tab) (e : Event) : Prop :=
  (Answers e → tab.history.loggedOut = false) ∧
    ∀ job n, Fails tab e job → job.token ≠ none →
      tab.history.accessFrom = some n ∨ tab.history.refreshFrom = some n → n ≤ job.logins

/-! ### What an event does to the storage -/

/-- The events as the storage and the history see them. -/
inductive Effect (tab : Tab) (e : Event) (tab' : Tab) : Prop where
  | kept (hs : tab'.storage = tab.storage) (hh : tab'.history = tab.history)
  | cleared (hs : tab'.storage = tab.storage.clearStoredTokens)
      (hh : tab'.history = tab.clearStoredTokens.history)
  | loggedIn (tokens : AuthTokens) (hs : tab'.storage = tab.storage.storeTokens tokens)
      (hh : tab'.history = (tab.storeTokens tokens).history)
  | answered (accessToken : String) (he : Answers e)
      (hs : tab'.storage = tab.storage.storeAccessToken accessToken)
      (hh : tab'.history = (tab.storeAccessToken accessToken).history)
  | loggedOut (hs : tab'.storage = tab.storage.clearStoredTokens)
      (hh : tab'.history = tab.logout.history)

variable {tab tab' : Tab} {e : Event}

theorem effect_returned (i : ℕ) (q : Request) (tokens : AuthTokens) :
    Effect tab e (tab.returned i q tokens) := by
  unfold Tab.returned
  dsimp only
  by_cases h : q.stores = true
  · rw [if_pos h]
    exact .loggedIn tokens rfl rfl
  · rw [if_neg h]
    exact .kept rfl rfl

theorem effect_fetched (i : ℕ) (q : Request) (res : Fetched) : Effect tab e (tab.fetched i q res) := by
  unfold Tab.fetched
  split_ifs
  · unfold Tab.unauthorized
    split_ifs <;> exact .kept rfl rfl
  · exact .kept rfl rfl
  · exact effect_returned i q _
  · exact .kept rfl rfl

theorem effect_read (i : ℕ) (q : Request) (body : Option AuthTokens) :
    Effect tab e (tab.read i q body) := by
  rcases body with _ | tokens
  · exact .kept rfl rfl
  · exact effect_returned i q tokens

theorem effect_resumed (i : ℕ) (q : Request) (newToken : Option String) :
    Effect tab e (tab.resumed i q newToken) := by
  unfold Tab.resumed
  split_ifs
  · exact .kept rfl rfl
  · exact .cleared rfl rfl

theorem effect_refreshFetched (r : ℕ) (job : Refresh) (res : Fetched) :
    Effect tab e (tab.refreshFetched r job res) := by
  unfold Tab.refreshFetched
  split_ifs
  · exact .kept rfl rfl
  · exact .cleared rfl rfl

theorem effect_refreshRead (r : ℕ) (job : Refresh) (body : Option (Option String)) :
    Effect tab (.refreshRead r body) (tab.refreshRead r job body) := by
  rcases body with _ | _ | accessToken
  · exact .cleared rfl rfl
  · exact .cleared rfl rfl
  · unfold Tab.refreshRead
    dsimp only
    split_ifs with h
    · exact .answered accessToken ⟨r, accessToken, rfl, h⟩ rfl rfl
    · exact .cleared rfl rfl

theorem effect_of_step (h : step tab e = some tab') : Effect tab e tab' := by
  cases e with
  | call path stores =>
    cases h
    exact .kept rfl rfl
  | fetched i res =>
    obtain ⟨q, -, h⟩ := Option.bind_eq_some_iff.mp h
    split_ifs at h
    cases h
    exact effect_fetched i q res
  | read i body =>
    obtain ⟨q, -, h⟩ := Option.bind_eq_some_iff.mp h
    split_ifs at h
    cases h
    exact effect_read i q body
  | resume i =>
    obtain ⟨q, -, h⟩ := Option.bind_eq_some_iff.mp h
    split at h
    · obtain ⟨newToken, -, h⟩ := Option.bind_eq_some_iff.mp h
      cases h
      exact effect_resumed i q newToken
    · cases h
  | refreshFetched r res =>
    obtain ⟨job, -, h⟩ := Option.bind_eq_some_iff.mp h
    split_ifs at h
    cases h
    exact effect_refreshFetched r job res
  | refreshRead r body =>
    obtain ⟨job, -, h⟩ := Option.bind_eq_some_iff.mp h
    split_ifs at h
    cases h
    exact effect_refreshRead r job body
  | refreshFinally r =>
    obtain ⟨job, -, h⟩ := Option.bind_eq_some_iff.mp h
    split at h
    · cases h
      exact .kept rfl rfl
    · cases h
  | logout =>
    cases h
    exact .loggedOut rfl rfl

/-- A refresh that fails clears the storage, whose tokens these may be. -/
theorem Fails.cleared {job : Refresh} (hf : Fails tab e job) (h : step tab e = some tab') :
    tab'.storage = tab.storage.clearStoredTokens := by
  cases hf with
  | fetched hr hres =>
    obtain ⟨job', -, h⟩ := Option.bind_eq_some_iff.mp h
    split_ifs at h
    cases h
    unfold Tab.refreshFetched
    rw [if_neg (by rw [hres]; exact Bool.false_ne_true)]
    rfl
  | @read r _ body hr hbody =>
    obtain ⟨job', -, h⟩ := Option.bind_eq_some_iff.mp h
    split_ifs at h
    cases h
    rcases body with _ | _ | accessToken
    · rfl
    · rfl
    · unfold Tab.refreshRead
      dsimp only
      rw [if_neg (by rw [show truthy (some accessToken) = false from hbody]; exact Bool.false_ne_true)]
      rfl
  | reported hi hq hr hjob =>
    obtain ⟨q', hi', h⟩ := Option.bind_eq_some_iff.mp h
    obtain rfl := Option.some.inj (hi.symm.trans hi')
    rw [hq] at h
    obtain ⟨newToken, hnew, h⟩ := Option.bind_eq_some_iff.mp h
    unfold Tab.resolved at hnew
    simp only [hr, hjob] at hnew
    cases hnew
    cases h
    rfl

/-- An answer that is stored. -/
theorem Answers.stored (he : Answers e) (h : step tab e = some tab') :
    tab'.storage.access ≠ none ∧ tab'.history.loggedOut = tab.history.loggedOut := by
  obtain ⟨r, accessToken, rfl, htruthy⟩ := he
  obtain ⟨job', -, h⟩ := Option.bind_eq_some_iff.mp h
  split_ifs at h
  cases h
  unfold Tab.refreshRead
  dsimp only
  rw [if_pos htruthy]
  exact ⟨Option.some_ne_none _, rfl⟩

/-! ### The invariant and the step lemma -/

/-- An item that a login has stored is there. -/
def Backed (tab : Tab) : Prop :=
  (∀ n, tab.history.accessFrom = some n → tab.storage.access ≠ none) ∧
    ∀ n, tab.history.refreshFrom = some n → tab.storage.refresh ≠ none

theorem Backed.step (hb : Backed tab) (h : step tab e = some tab') : Backed tab' := by
  unfold Backed
  cases effect_of_step h with
  | kept hs hh =>
    rw [hs, hh]
    exact hb
  | cleared hs hh =>
    rw [hh]
    constructor <;> intro n hn <;> cases hn
  | loggedIn tokens hs hh =>
    rw [hs, hh]
    constructor
    · intro n _
      exact Option.some_ne_none _
    · intro n hn
      unfold Tab.storeTokens at hn
      unfold Storage.storeTokens
      dsimp only at hn ⊢
      by_cases ht : truthy tokens.refresh_token = true
      · rw [if_pos ht]
        intro hnone
        rw [hnone] at ht
        cases ht
      · rw [if_neg ht] at hn ⊢
        exact hb.2 n hn
  | answered accessToken _ hs hh =>
    rw [hs, hh]
    constructor
    · intro n _
      exact Option.some_ne_none _
    · exact hb.2
  | loggedOut hs hh =>
    rw [hh]
    constructor <;> intro n hn <;> cases hn

theorem logoutFinal_step (hfinal : LogoutFinal tab) (h : step tab e = some tab')
    (htimely : Answers e → tab.history.loggedOut = false) : LogoutFinal tab' := by
  intro hout
  cases effect_of_step h with
  | kept hs hh =>
    rw [hh] at hout
    rw [hs]
    exact hfinal hout
  | cleared hs hh =>
    rw [hs]
    exact ⟨rfl, rfl⟩
  | loggedIn tokens hs hh =>
    rw [hh] at hout
    cases hout
  | answered accessToken he hs hh =>
    rw [hh] at hout
    have := htimely he
    rw [show tab.history.loggedOut = true from hout] at this
    cases this
  | loggedOut hs hh =>
    rw [hs]
    exact ⟨rfl, rfl⟩

theorem safe_iff_timely (hfinal : LogoutFinal tab) (hb : Backed tab) (h : step tab e = some tab') :
    LogoutFinal tab' ∧ StaleHarmless tab e tab' ↔ Timely tab e := by
  constructor
  · rintro ⟨hfinal', hstale⟩
    constructor
    · intro he
      obtain ⟨haccess, hout⟩ := he.stored h
      by_contra hn
      rw [Bool.not_eq_false, ← hout] at hn
      exact haccess (hfinal' hn).1
    · intro job n hf htoken hfrom
      by_contra hlt
      obtain ⟨haccess, hrefresh⟩ := hstale job n hf htoken (Nat.not_le.mp hlt)
      have hcleared := hf.cleared h
      rcases hfrom with hfrom | hfrom
      · rw [hcleared] at haccess
        exact hb.1 n hfrom (haccess hfrom).symm
      · rw [hcleared] at hrefresh
        exact hb.2 n hfrom (hrefresh hfrom).symm
  · rintro ⟨hanswer, hfail⟩
    constructor
    · exact logoutFinal_step hfinal h hanswer
    · intro job n hf htoken hlt
      constructor
      · intro hfrom
        exact absurd (hfail job n hf htoken (Or.inl hfrom)) (Nat.not_le.mpr hlt)
      · intro hfrom
        exact absurd (hfail job n hf htoken (Or.inr hfrom)) (Nat.not_le.mpr hlt)

/-! ### Every run -/

/-- A run from a page load keeps both properties in all its steps if and only if all its events are
timely. -/
theorem throughout_safe_iff (storage : Storage) (events : List Event) :
    Throughout (fun tab e tab' => LogoutFinal tab' ∧ StaleHarmless tab e tab') (.opened storage) events ↔
      Throughout (fun tab e _ => Timely tab e) (.opened storage) events := by
  apply throughout_iff fun tab => LogoutFinal tab ∧ Backed tab
  · rintro tab e tab' ⟨hfinal, hb⟩ h
    exact safe_iff_timely hfinal hb h
  · rintro tab e tab' ⟨-, hb⟩ h ⟨hfinal', -⟩
    exact ⟨hfinal', hb.step h⟩
  · constructor
    · intro hout
      cases hout
    · constructor <;> intro n hn <;> cases hn

/-! ### Two runs -/

/-- The tokens of a session whose access token has expired. -/
def expired : Storage where
  access := some "access-1"
  refresh := some "refresh-1"

/-- The user logs out while a refresh is under way. -/
def logoutDuringRefresh : List Event :=
  [.call "/users/me" false, .fetched 0 (.status 401), .logout, .refreshFetched 0 (.status 200)]

/-- The user logs in while a refresh is under way. -/
def loginDuringRefresh : List Event :=
  [.call "/users/me" false, .fetched 0 (.status 401), .call "/auth/login" true,
    .fetched 1 (.status 200), .read 1 (some ⟨some "access-2", some "refresh-2"⟩)]

/-- The answer of the refresh is stored after the logout; and the refresh, whose token is refused, removes
the tokens of the login. -/
theorem session_leaks :
    ¬ Throughout (fun _ _ tab' => LogoutFinal tab') (.opened expired)
      (logoutDuringRefresh ++ [.refreshRead 0 (some (some "access-3"))]) ∧
    ¬ Throughout StaleHarmless (.opened expired)
      (loginDuringRefresh ++ [.refreshFetched 0 (.status 401)]) := by
  constructor
  · intro h
    have hlast : ∃ tab tab', run (.opened expired) logoutDuringRefresh = some tab ∧
        step tab (.refreshRead 0 (some (some "access-3"))) = some tab' ∧
        tab'.history.loggedOut = true ∧ tab'.storage.access = some "access-3" :=
      ⟨_, _, rfl, rfl, rfl, rfl⟩
    obtain ⟨tab, tab', hrun, hstep, hout, haccess⟩ := hlast
    have := (h.of_step hrun hstep hout).1
    rw [haccess] at this
    cases this
  · intro h
    have hlast : ∃ tab tab' job, run (.opened expired) loginDuringRefresh = some tab ∧
        step tab (.refreshFetched 0 (.status 401)) = some tab' ∧ tab.refreshes[0]? = some job ∧
        job.token ≠ none ∧ job.logins = 0 ∧ tab.history.accessFrom = some 1 ∧
        tab.storage.access = some "access-2" ∧ tab'.storage.access = none :=
      ⟨_, _, _, rfl, rfl, rfl, Option.some_ne_none _, rfl, rfl, rfl, rfl⟩
    obtain ⟨tab, tab', job, hrun, hstep, hjob, htoken, hlogins, hfrom, haccess, hgone⟩ := hlast
    have := (h.of_step hrun hstep job 1 (.fetched hjob rfl) htoken (by omega)).1 hfrom
    rw [haccess, hgone] at this
    cases this

end InterviewScheduler.Frontend
