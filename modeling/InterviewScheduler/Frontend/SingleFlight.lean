import InterviewScheduler.Frontend.Session

/-! # One refresh at a time

Any number of calls of `request`, and their fetches in any order and with any results. The flag
`isRefreshing` is up exactly from the 401 that starts a refresh to the callback of `finally`
(`Single`), so that no two refreshes overlap, and a request that meets a 401 in between waits for that
refresh. A request fetches a second time only when it resumes, and then for the last time. -/

namespace InterviewScheduler.Frontend

/-! ### What an event does -/

/-- The promise of the refresh is pending. -/
def RefreshPhase.Running : RefreshPhase → Prop
  | done _ => False
  | _ => True

/-- The variables of the module and the functions under way are as they were. -/
structure SameFlight (tab tab' : Tab) : Prop where
  flag : tab'.isRefreshing = tab.isRefreshing
  promise : tab'.refreshPromise = tab.refreshPromise
  refreshes : tab'.refreshes = tab.refreshes

/-- The events as the refreshes and the requests see them. -/
inductive Moves (tab : Tab) (e : Event) (tab' : Tab) : Prop where
  | kept (hsame : SameFlight tab tab') (hreq : tab'.requests = tab.requests)
  | called {q : Request} (hsame : SameFlight tab tab') (hreq : tab'.requests = tab.requests ++ [q])
      (hphase : q.phase = .fetching) (hretry : q.retry = true)
  /-- A piece of a request after which it does not fetch, and does not wait. -/
  | went {i : ℕ} {q : Request} {phase : RequestPhase} (hsame : SameFlight tab tab')
      (hi : tab.requests[i]? = some q) (hreq : tab'.requests = tab.requests.set i { q with phase })
      (hq : ∀ p, q.phase ≠ .awaiting p) (hphase : phase = .reading ∨ phase = .ended)
  | waits {i : ℕ} {q : Request} (hsame : SameFlight tab tab') (hi : tab.requests[i]? = some q)
      (hreq : tab'.requests = tab.requests.set i { q with phase := .awaiting tab.refreshPromise })
      (he : e = .fetched i (.status 401)) (hq : q.phase = .fetching) (hretry : q.retry = true)
      (hpath : Tab.isAuthEndpoint q.path = false) (hflag : tab.isRefreshing = true)
  | starts {i : ℕ} {q : Request} {job : Refresh} (hi : tab.requests[i]? = some q)
      (hreq : tab'.requests =
        tab.requests.set i { q with phase := .awaiting (some tab.refreshes.length) })
      (he : e = .fetched i (.status 401)) (hq : q.phase = .fetching) (hretry : q.retry = true)
      (hpath : Tab.isAuthEndpoint q.path = false) (hflag : tab.isRefreshing = false)
      (hrefreshes : tab'.refreshes = tab.refreshes ++ [job]) (hjob : job.phase.Running)
      (hflag' : tab'.isRefreshing = true) (hpromise : tab'.refreshPromise = some tab.refreshes.length)
  | resumes {i : ℕ} {q q' : Request} {promise : Option ℕ} {newToken : Option String}
      (hsame : SameFlight tab tab') (hi : tab.requests[i]? = some q)
      (hreq : tab'.requests = tab.requests.set i q') (he : e = .resume i)
      (hq : q.phase = .awaiting promise) (hnew : tab.resolved promise = some newToken)
      (hq' : q'.phase = .ended ∨ q'.phase = .fetching ∧ q'.retry = false)
  | goesOn {r : ℕ} {job job' : Refresh} (hreq : tab'.requests = tab.requests)
      (hflag : tab'.isRefreshing = tab.isRefreshing) (hpromise : tab'.refreshPromise = tab.refreshPromise)
      (hr : tab.refreshes[r]? = some job) (hrefreshes : tab'.refreshes = tab.refreshes.set r job')
      (hjob : job.phase.Running) (hjob' : job'.phase.Running)
  | finishes {r : ℕ} {job : Refresh} {result : Option String} (hreq : tab'.requests = tab.requests)
      (hr : tab.refreshes[r]? = some job) (hjob : job.phase = .settled result)
      (hrefreshes : tab'.refreshes = tab.refreshes.set r { job with phase := .done result })
      (hflag : tab'.isRefreshing = false) (hpromise : tab'.refreshPromise = none)

variable {tab tab' : Tab} {e : Event}

/-- A login stores its tokens; whatever the caller does with them, the request is over. -/
theorem moves_returned {i : ℕ} {q : Request} {tokens : AuthTokens} (hi : tab.requests[i]? = some q)
    (hq : ∀ p, q.phase ≠ .awaiting p) : Moves tab e (tab.returned i q tokens) := by
  unfold Tab.returned
  dsimp only
  split_ifs
  · exact .went ⟨rfl, rfl, rfl⟩ hi rfl hq (Or.inr rfl)
  · exact .went ⟨rfl, rfl, rfl⟩ hi rfl hq (Or.inr rfl)

theorem running_refreshAccessToken (tab : Tab) : tab.refreshAccessToken.phase.Running := by
  unfold Tab.refreshAccessToken
  dsimp only
  split_ifs
  · trivial
  · trivial

theorem moves_fetched {i : ℕ} {q : Request} {res : Fetched} (hi : tab.requests[i]? = some q)
    (hq : q.phase = .fetching) : Moves tab (.fetched i res) (tab.fetched i q res) := by
  have hnot : ∀ p, q.phase ≠ .awaiting p := by
    intro p hp
    rw [hq] at hp
    cases hp
  unfold Tab.fetched
  split_ifs with hretry hok hempty
  · obtain ⟨rfl, hretry, hpath⟩ := hretry
    unfold Tab.unauthorized
    split_ifs with hflag
    · exact .waits ⟨rfl, rfl, rfl⟩ hi rfl rfl hq hretry hpath hflag
    · exact .starts hi rfl rfl hq hretry hpath (Bool.not_eq_true _ ▸ hflag) rfl
        (running_refreshAccessToken tab) rfl rfl
  · exact .went ⟨rfl, rfl, rfl⟩ hi rfl hnot (Or.inr rfl)
  · exact moves_returned hi hnot
  · exact .went ⟨rfl, rfl, rfl⟩ hi rfl hnot (Or.inl rfl)

theorem moves_of_step (h : step tab e = some tab') : Moves tab e tab' := by
  cases e with
  | call path stores =>
    cases h
    exact .called ⟨rfl, rfl, rfl⟩ rfl rfl rfl
  | fetched i res =>
    obtain ⟨q, hi, h⟩ := Option.bind_eq_some_iff.mp h
    split_ifs at h with hq
    cases h
    exact moves_fetched hi hq
  | read i body =>
    obtain ⟨q, hi, h⟩ := Option.bind_eq_some_iff.mp h
    split_ifs at h with hq
    cases h
    have hnot : ∀ p, q.phase ≠ .awaiting p := by
      intro p hp
      rw [hq] at hp
      cases hp
    cases body with
    | none => exact .went ⟨rfl, rfl, rfl⟩ hi rfl hnot (Or.inr rfl)
    | some tokens => exact moves_returned hi hnot
  | resume i =>
    obtain ⟨q, hi, h⟩ := Option.bind_eq_some_iff.mp h
    split at h
    · next promise hq =>
      obtain ⟨newToken, hnew, h⟩ := Option.bind_eq_some_iff.mp h
      cases h
      unfold Tab.resumed
      split_ifs
      · exact .resumes ⟨rfl, rfl, rfl⟩ hi rfl rfl hq hnew (Or.inr ⟨rfl, rfl⟩)
      · exact .resumes ⟨rfl, rfl, rfl⟩ hi rfl rfl hq hnew (Or.inl rfl)
    · cases h
  | refreshFetched r res =>
    obtain ⟨job, hr, h⟩ := Option.bind_eq_some_iff.mp h
    split_ifs at h with hjob
    cases h
    have hrunning : job.phase.Running := by
      rw [hjob]
      trivial
    unfold Tab.refreshFetched
    split_ifs
    · exact .goesOn rfl rfl rfl hr rfl hrunning trivial
    · exact .goesOn rfl rfl rfl hr rfl hrunning trivial
  | refreshRead r body =>
    obtain ⟨job, hr, h⟩ := Option.bind_eq_some_iff.mp h
    split_ifs at h with hjob
    cases h
    have hrunning : job.phase.Running := by
      rw [hjob]
      trivial
    unfold Tab.refreshRead
    split
    · split_ifs
      · exact .goesOn rfl rfl rfl hr rfl hrunning trivial
      · exact .goesOn rfl rfl rfl hr rfl hrunning trivial
    · exact .goesOn rfl rfl rfl hr rfl hrunning trivial
  | refreshFinally r =>
    obtain ⟨job, hr, h⟩ := Option.bind_eq_some_iff.mp h
    split at h
    · next result hjob =>
      cases h
      exact .finishes rfl hr hjob rfl rfl rfl
    · cases h
  | logout =>
    cases h
    exact .kept ⟨rfl, rfl, rfl⟩ rfl

/-! ### The guard -/

/-- The flag is up while the promise of a refresh is pending, which is then the only one; and who waits
is on the first attempt, for a refresh that has started. -/
structure Single (tab : Tab) : Prop where
  flag : tab.isRefreshing = true ↔ tab.refreshPromise ≠ none
  current : ∀ r, tab.refreshPromise = some r → ∃ job, tab.refreshes[r]? = some job ∧ job.phase.Running
  only : ∀ (r : ℕ) (job : Refresh), tab.refreshes[r]? = some job → job.phase.Running →
    tab.refreshPromise = some r
  waiting : ∀ (i : ℕ) (q : Request) (p : Option ℕ), tab.requests[i]? = some q → q.phase = .awaiting p →
    q.retry = true ∧ ∃ r, p = some r ∧ r < tab.refreshes.length

theorem Single.opened (storage : Storage) : Single (.opened storage) := by
  refine ⟨?_, ?_, ?_, ?_⟩
  · simp [Tab.opened]
  · intro r hr
    cases hr
  · intro r job hr
    simp [Tab.opened] at hr
  · intro i q p hi
    simp [Tab.opened] at hi

/-- The refreshes are as before. -/
theorem Single.of_same (h : Single tab) (hsame : SameFlight tab tab')
    (hwaiting : ∀ (i : ℕ) (q : Request) (p : Option ℕ), tab'.requests[i]? = some q →
      q.phase = .awaiting p → q.retry = true ∧ ∃ r, p = some r ∧ r < tab.refreshes.length) :
    Single tab' := by
  obtain ⟨hflag, hpromise, hrefreshes⟩ := hsame
  refine ⟨?_, ?_, ?_, ?_⟩
  · rw [hflag, hpromise]
    exact h.flag
  · rw [hpromise, hrefreshes]
    exact h.current
  · rw [hpromise, hrefreshes]
    exact h.only
  · rw [hrefreshes]
    exact hwaiting

/-- A request is replaced by one that waits for a refresh there is, or does not wait. -/
theorem Single.waiting_set (h : Single tab) {i n : ℕ} {q' : Request} (hn : tab.refreshes.length ≤ n)
    (hq' : ∀ p, q'.phase = .awaiting p → q'.retry = true ∧ ∃ r, p = some r ∧ r < n) :
    ∀ (j : ℕ) (q : Request) (p : Option ℕ), (tab.requests.set i q')[j]? = some q →
      q.phase = .awaiting p → q.retry = true ∧ ∃ r, p = some r ∧ r < n := by
  intro j q p hj hp
  rw [List.getElem?_set] at hj
  split_ifs at hj with hij hlt
  · cases hj
    exact hq' p hp
  · obtain ⟨hretry, r, hr, hlt⟩ := h.waiting j q p hj hp
    exact ⟨hretry, r, hr, by omega⟩

/-- **Every event keeps the guard.** -/
theorem Single.step (h : Single tab) (hstep : Frontend.step tab e = some tab') : Single tab' := by
  cases moves_of_step hstep with
  | kept hsame hreq =>
    refine h.of_same hsame ?_
    rw [hreq]
    exact h.waiting
  | called hsame hreq hphase hretry =>
    refine h.of_same hsame fun i q p hi hp => ?_
    rw [hreq] at hi
    rcases Nat.lt_or_ge i tab.requests.length with hlt | hge
    · rw [List.getElem?_append_left hlt] at hi
      exact h.waiting i q p hi hp
    · rw [List.getElem?_append_right hge] at hi
      obtain rfl := List.mem_singleton.mp (List.mem_of_getElem? hi)
      rw [hphase] at hp
      cases hp
  | went hsame hi hreq hq hphase =>
    refine h.of_same hsame ?_
    rw [hreq]
    refine h.waiting_set (Nat.le_refl _) fun p hp => ?_
    rcases hphase with rfl | rfl
    · cases hp
    · cases hp
  | waits hsame hi hreq he hq hretry hpath hflag =>
    refine h.of_same hsame ?_
    rw [hreq]
    refine h.waiting_set (Nat.le_refl _) fun p hp => ⟨hretry, ?_⟩
    obtain ⟨r, hr⟩ := Option.ne_none_iff_exists'.mp (h.flag.mp hflag)
    obtain ⟨job, hjob, -⟩ := h.current r hr
    cases hp
    exact ⟨r, hr, (List.getElem?_eq_some_iff.mp hjob).1⟩
  | @starts i q job hi hreq he hq hretry hpath hflag hrefreshes hjob hflag' hpromise =>
    have hnone : tab.refreshPromise = none := by
      by_contra hne
      rw [h.flag.mpr hne] at hflag
      cases hflag
    refine ⟨?_, ?_, ?_, ?_⟩
    · rw [hflag', hpromise]
      simp
    · intro r hr
      rw [hpromise] at hr
      cases hr
      refine ⟨job, ?_, hjob⟩
      rw [hrefreshes, List.getElem?_append_right (Nat.le_refl _), Nat.sub_self]
      rfl
    · intro r job' hr hrunning
      rw [hrefreshes] at hr
      rcases Nat.lt_or_ge r tab.refreshes.length with hlt | hge
      · rw [List.getElem?_append_left hlt] at hr
        rw [h.only r job' hr hrunning] at hnone
        cases hnone
      · have hlen := (List.getElem?_eq_some_iff.mp hr).1
        rw [List.length_append, List.length_singleton] at hlen
        rw [hpromise, show r = tab.refreshes.length from by omega]
    · rw [hreq, hrefreshes, List.length_append, List.length_singleton]
      refine h.waiting_set (Nat.le_succ _) fun p hp => ⟨hretry, ?_⟩
      cases hp
      exact ⟨_, rfl, Nat.lt_succ_self _⟩
  | resumes hsame hi hreq he hq hnew hq' =>
    refine h.of_same hsame ?_
    rw [hreq]
    refine h.waiting_set (Nat.le_refl _) fun p hp => ?_
    rcases hq' with hq' | ⟨hq', -⟩
    · rw [hq'] at hp
      cases hp
    · rw [hq'] at hp
      cases hp
  | @goesOn r job job' hreq hflag hpromise hr hrefreshes hjob hjob' =>
    have hlt := (List.getElem?_eq_some_iff.mp hr).1
    have hcurrent := h.only r job hr hjob
    refine ⟨?_, ?_, ?_, ?_⟩
    · rw [hflag, hpromise]
      exact h.flag
    · intro r' hr'
      rw [hpromise, hcurrent] at hr'
      cases hr'
      exact ⟨job', by rw [hrefreshes, List.getElem?_set_self hlt], hjob'⟩
    · intro r' job'' hr' hrunning
      rw [hpromise]
      rw [hrefreshes, List.getElem?_set] at hr'
      split_ifs at hr' with heq
      · rw [← heq]
        exact hcurrent
      · exact h.only r' job'' hr' hrunning
    · rw [hreq, hrefreshes, List.length_set]
      exact h.waiting
  | @finishes r job result hreq hr hjob hrefreshes hflag hpromise =>
    have hrunning : job.phase.Running := by
      rw [hjob]
      trivial
    refine ⟨?_, ?_, ?_, ?_⟩
    · rw [hflag, hpromise]
      simp
    · intro r' hr'
      rw [hpromise] at hr'
      cases hr'
    · intro r' job' hr' hrunning'
      rw [hrefreshes, List.getElem?_set] at hr'
      split_ifs at hr' with heq
      · cases hr'
        exact hrunning'.elim
      · have := h.only r' job' hr' hrunning'
        rw [h.only r job hr hrunning] at this
        exact absurd (Option.some.inj this) heq
    · rw [hreq, hrefreshes, List.length_set]
      exact h.waiting

/-- So does a run. -/
theorem Single.run : ∀ {events : List Event} {tab tab' : Tab}, Single tab →
    Frontend.run tab events = some tab' → Single tab'
  | [], _, _, h, hrun => by
    cases hrun
    exact h
  | e :: events, tab, tab', h, hrun => by
    obtain ⟨next, hnext, hrest⟩ := Option.bind_eq_some_iff.mp hrun
    exact Single.run (h.step hnext) hrest

/-! ### Waiting for the refresh -/

/-- **A 401 while a refresh is under way** starts no other one, and waits for it. -/
theorem Single.waits (h : Single tab) {i r : ℕ} {q : Request} {job : Refresh}
    (hi : tab.requests[i]? = some q) (hretry : q.retry = true) (hpath : Tab.isAuthEndpoint q.path = false)
    (hr : tab.refreshes[r]? = some job) (hjob : job.phase.Running)
    (hstep : Frontend.step tab (.fetched i (.status 401)) = some tab') :
    tab' = tab.setRequest i { q with phase := .awaiting (some r) } := by
  obtain ⟨q', hi', hstep⟩ := Option.bind_eq_some_iff.mp hstep
  obtain rfl := Option.some.inj (hi.symm.trans hi')
  split_ifs at hstep
  have hpromise := h.only r job hr hjob
  have hflag : tab.isRefreshing = true := h.flag.mpr (by rw [hpromise]; simp)
  have heq : tab.fetched i q (.status 401) = tab.unauthorized i q := if_pos ⟨rfl, hretry, hpath⟩
  rw [heq] at hstep
  unfold Tab.unauthorized at hstep
  rw [if_pos hflag, hpromise] at hstep
  exact (Option.some.inj hstep).symm

/-- No other event touches a request that waits. -/
theorem waiting_of_step {i : ℕ} {q : Request} {p : Option ℕ} (hi : tab.requests[i]? = some q)
    (hq : q.phase = .awaiting p) (he : e ≠ .resume i) (hstep : step tab e = some tab') :
    tab'.requests[i]? = some q := by
  have hother : ∀ {j : ℕ} {q₀ q' : Request}, tab.requests[j]? = some q₀ →
      (∀ p, q₀.phase ≠ .awaiting p) → (tab.requests.set j q')[i]? = some q := by
    intro j q₀ q' hj hnot
    rw [List.getElem?_set_ne, hi]
    rintro rfl
    obtain rfl := Option.some.inj (hi.symm.trans hj)
    exact hnot p hq
  have hfetching : ∀ {q₀ : Request}, q₀.phase = .fetching → ∀ p, q₀.phase ≠ .awaiting p := by
    intro q₀ hq₀ p hp
    rw [hq₀] at hp
    cases hp
  cases moves_of_step hstep with
  | kept hsame hreq => rw [hreq, hi]
  | called hsame hreq hphase hretry =>
    rw [hreq, List.getElem?_append_left (List.getElem?_eq_some_iff.mp hi).1, hi]
  | went hsame hj hreq hnot hphase =>
    rw [hreq]
    exact hother hj hnot
  | waits hsame hj hreq he' hq' hretry hpath hflag =>
    rw [hreq]
    exact hother hj (hfetching hq')
  | starts hj hreq he' hq' =>
    rw [hreq]
    exact hother hj (hfetching hq')
  | @resumes j q₀ q' promise newToken hsame hj hreq he' =>
    rw [hreq, List.getElem?_set_ne, hi]
    rintro rfl
    exact he he'
  | goesOn hreq => rw [hreq, hi]
  | finishes hreq => rw [hreq, hi]

theorem waiting_of_run {i : ℕ} {q : Request} {p : Option ℕ} (hq : q.phase = .awaiting p) :
    ∀ {events : List Event} {tab tab' : Tab}, tab.requests[i]? = some q → .resume i ∉ events →
      run tab events = some tab' → tab'.requests[i]? = some q
  | [], _, _, hi, _, hrun => by
    cases hrun
    exact hi
  | e :: events, tab, tab', hi, he, hrun => by
    obtain ⟨next, hnext, hrest⟩ := Option.bind_eq_some_iff.mp hrun
    have hne : e ≠ .resume i := fun heq => he (heq ▸ List.mem_cons_self)
    have hi' := waiting_of_step hi hq hne hnext
    exact waiting_of_run hq hi' (fun hmem => he (List.mem_cons_of_mem _ hmem)) hrest

/-- A request that waits for a refresh goes on when that has its result, and with the result. -/
theorem resume_iff {i r : ℕ} {q : Request} (hi : tab.requests[i]? = some q)
    (hq : q.phase = .awaiting (some r)) :
    step tab (.resume i) = some tab' ↔ ∃ job result, tab.refreshes[r]? = some job ∧
      job.phase = .done result ∧ tab' = tab.resumed i q result := by
  have hstep : step tab (.resume i) =
      (tab.resolved (some r)).bind fun newToken => some (tab.resumed i q newToken) := by
    show (tab.requests[i]?).bind _ = _
    rw [hi]
    simp only [Option.bind_some, hq]
    rfl
  rw [hstep]
  constructor
  · intro h
    obtain ⟨newToken, hnew, h⟩ := Option.bind_eq_some_iff.mp h
    unfold Tab.resolved at hnew
    dsimp only at hnew
    split at hnew
    · next job hjob =>
      split at hnew
      · next result hresult =>
        cases hnew
        exact ⟨job, newToken, hjob, hresult, (Option.some.inj h).symm⟩
      · cases hnew
    · cases hnew
  · rintro ⟨job, result, hjob, hresult, rfl⟩
    unfold Tab.resolved
    simp only [hjob, hresult]
    rfl

/-! ### How often a request fetches -/

/-- The request fetches its URL after the event, and did not before. -/
def StartsFetch (i : ℕ) (tab tab' : Tab) : Prop :=
  tab'.requests[i]?.map (·.phase) = some .fetching ∧ tab.requests[i]?.map (·.phase) ≠ some .fetching

instance (i : ℕ) (tab tab' : Tab) : Decidable (StartsFetch i tab tab') :=
  inferInstanceAs (Decidable (_ ∧ _))

/-- The fetches of a request in a run. -/
def fetchCount (i : ℕ) : Tab → List Event → ℕ
  | _, [] => 0
  | tab, e :: events =>
    match step tab e with
    | none => 0
    | some tab' => (if StartsFetch i tab tab' then 1 else 0) + fetchCount i tab' events

/-- The fetches that a request has left. -/
def fetchesLeft (i : ℕ) (tab : Tab) : ℕ :=
  match tab.requests[i]? with
  | none => 2
  | some q => if q.retry then 1 else 0

theorem fetchesLeft_of_some {i : ℕ} {q : Request} (hi : tab.requests[i]? = some q) :
    fetchesLeft i tab = if q.retry then 1 else 0 := by
  unfold fetchesLeft
  rw [hi]

/-- A request that does not start a fetch, and is not on a second attempt if it was not before. -/
theorem fetchesLeft_of_set {i j : ℕ} {q q' : Request} (hj : tab.requests[j]? = some q)
    (hreq : tab'.requests = tab.requests.set j q') (hretry : q'.retry = q.retry)
    (hphase : q'.phase ≠ .fetching) :
    ¬ StartsFetch i tab tab' ∧ fetchesLeft i tab' = fetchesLeft i tab := by
  have hlt := (List.getElem?_eq_some_iff.mp hj).1
  by_cases hij : j = i
  · subst hij
    have hj' : tab'.requests[j]? = some q' := by rw [hreq, List.getElem?_set_self hlt]
    constructor
    · rintro ⟨h, -⟩
      rw [hj'] at h
      exact hphase (Option.some.inj h)
    · rw [fetchesLeft_of_some hj, fetchesLeft_of_some hj', hretry]
  · have hsame : tab'.requests[i]? = tab.requests[i]? := by rw [hreq, List.getElem?_set_ne hij]
    constructor
    · rintro ⟨h, hnot⟩
      rw [hsame] at h
      exact hnot h
    · unfold fetchesLeft
      rw [hsame]

theorem fetchesLeft_of_same {i : ℕ} (hsame : tab'.requests[i]? = tab.requests[i]?) :
    ¬ StartsFetch i tab tab' ∧ fetchesLeft i tab' = fetchesLeft i tab := by
  constructor
  · rintro ⟨h, hnot⟩
    rw [hsame] at h
    exact hnot h
  · unfold fetchesLeft
    rw [hsame]

/-- A fetch is one of those that were left. -/
theorem Single.fetch_step (h : Single tab) (hstep : Frontend.step tab e = some tab') (i : ℕ) :
    (if StartsFetch i tab tab' then 1 else 0) + fetchesLeft i tab' ≤ fetchesLeft i tab := by
  have hnone : ¬ StartsFetch i tab tab' ∧ fetchesLeft i tab' = fetchesLeft i tab →
      (if StartsFetch i tab tab' then 1 else 0) + fetchesLeft i tab' ≤ fetchesLeft i tab := by
    rintro ⟨hnot, hleft⟩
    rw [if_neg hnot]
    omega
  cases moves_of_step hstep with
  | kept hsame hreq => exact hnone (fetchesLeft_of_same (by rw [hreq]))
  | @called q hsame hreq hphase hretry =>
    rcases Nat.lt_trichotomy i tab.requests.length with hlt | heq | hgt
    · exact hnone (fetchesLeft_of_same (by rw [hreq, List.getElem?_append_left hlt]))
    · have hi' : tab'.requests[i]? = some q := by
        rw [hreq, heq, List.getElem?_append_right (Nat.le_refl _), Nat.sub_self]
        rfl
      have hi : tab.requests[i]? = none := List.getElem?_eq_none (by omega)
      have hleft : fetchesLeft i tab = 2 := by
        unfold fetchesLeft
        rw [hi]
      rw [fetchesLeft_of_some hi', hretry, hleft, if_pos rfl]
      split_ifs
      · omega
      · omega
    · refine hnone (fetchesLeft_of_same ?_)
      have hbefore : tab.requests[i]? = none := List.getElem?_eq_none (by omega)
      have hafter : (tab.requests ++ [q])[i]? = none := by
        apply List.getElem?_eq_none
        rw [List.length_append, List.length_singleton]
        omega
      rw [hreq, hbefore, hafter]
  | @went j q phase hsame hj hreq hnot hphase =>
    refine hnone (fetchesLeft_of_set hj hreq rfl ?_)
    rcases hphase with rfl | rfl
    · simp
    · simp
  | waits hsame hj hreq => exact hnone (fetchesLeft_of_set hj hreq rfl (by simp))
  | starts hj hreq => exact hnone (fetchesLeft_of_set hj hreq rfl (by simp))
  | @resumes j q q' promise newToken hsame hj hreq he hq hnew hq' =>
    have hretry := (h.waiting j q promise hj hq).1
    have hlt := (List.getElem?_eq_some_iff.mp hj).1
    by_cases hij : j = i
    · subst hij
      have hj' : tab'.requests[j]? = some q' := by rw [hreq, List.getElem?_set_self hlt]
      rw [fetchesLeft_of_some hj, fetchesLeft_of_some hj', hretry, if_pos rfl]
      rcases hq' with hended | ⟨-, hretry'⟩
      · have hnot : ¬ StartsFetch j tab tab' := by
          rintro ⟨hfetching, -⟩
          rw [hj'] at hfetching
          rw [Option.map_some, hended] at hfetching
          cases hfetching
        rw [if_neg hnot]
        cases q'.retry
        · exact Nat.zero_le _
        · exact Nat.le_refl _
      · rw [hretry', if_neg Bool.false_ne_true, Nat.add_zero]
        split_ifs
        · exact Nat.le_refl _
        · exact Nat.zero_le _
    · refine hnone (fetchesLeft_of_same ?_)
      rw [hreq, List.getElem?_set_ne hij]
  | goesOn hreq => exact hnone (fetchesLeft_of_same (by rw [hreq]))
  | finishes hreq => exact hnone (fetchesLeft_of_same (by rw [hreq]))

theorem Single.fetch_run (i : ℕ) : ∀ (events : List Event) {tab : Tab}, Single tab →
    fetchCount i tab events ≤ fetchesLeft i tab
  | [], _, _ => Nat.zero_le _
  | e :: events, tab, h => by
    unfold fetchCount
    split
    · exact Nat.zero_le _
    · next tab' hstep =>
      have h1 := h.fetch_step hstep i
      have h2 := Single.fetch_run i events (h.step hstep)
      omega

/-! ### Every run -/

/-- **Single flight.** In every tab that a run reaches: no two refreshes are under way; a request on its
first attempt, and not to an `/auth/` path, that meets a 401 while a refresh is under way waits for it,
whatever happens in between, and goes on when it has its result, with the result; and in the whole run no
request has fetched its URL more than twice. -/
theorem single_flight {storage : Storage} {events : List Event} {tab : Tab}
    (hrun : run (.opened storage) events = some tab) :
    (∀ (r r' : ℕ) (job job' : Refresh), tab.refreshes[r]? = some job → tab.refreshes[r']? = some job' →
      job.phase.Running → job'.phase.Running → r = r') ∧
    (∀ (i r : ℕ) (q : Request) (job : Refresh) (tab₁ : Tab), tab.requests[i]? = some q → q.retry = true →
      Tab.isAuthEndpoint q.path = false → tab.refreshes[r]? = some job → job.phase.Running →
      step tab (.fetched i (.status 401)) = some tab₁ →
        tab₁.refreshes = tab.refreshes ∧
        ∀ (later : List Event) (tab₂ tab₃ : Tab), .resume i ∉ later → run tab₁ later = some tab₂ →
          (step tab₂ (.resume i) = some tab₃ ↔ ∃ job' result, tab₂.refreshes[r]? = some job' ∧
            job'.phase = .done result ∧
              tab₃ = tab₂.resumed i { q with phase := .awaiting (some r) } result)) ∧
    ∀ i, fetchCount i (.opened storage) events ≤ 2 := by
  have h := (Single.opened storage).run hrun
  refine ⟨?_, ?_, fun i => Single.fetch_run i events (Single.opened storage)⟩
  · intro r r' job job' hr hr' hjob hjob'
    have hpromise := h.only r job hr hjob
    rw [h.only r' job' hr' hjob'] at hpromise
    exact (Option.some.inj hpromise).symm
  · intro i r q job tab₁ hi hretry hpath hr hjob hstep
    obtain rfl := h.waits hi hretry hpath hr hjob hstep
    refine ⟨rfl, fun later tab₂ tab₃ hlater hrun' => ?_⟩
    have hlt := (List.getElem?_eq_some_iff.mp hi).1
    have hi₁ : (tab.setRequest i { q with phase := .awaiting (some r) }).requests[i]? =
        some { q with phase := .awaiting (some r) } := List.getElem?_set_self hlt
    exact resume_iff (waiting_of_run rfl hi₁ hlater hrun') rfl

/-! ### Two requests and one refresh -/

/-- Both requests meet a 401 before the answer of the refresh is there, and both are sent again. -/
def sharedRefresh : List Event :=
  [.call "/users/me" false, .call "/interviews" false, .fetched 0 (.status 401), .fetched 1 (.status 401),
    .refreshFetched 0 (.status 200), .refreshRead 0 (some (some "access-2")), .refreshFinally 0,
    .resume 1, .resume 0, .fetched 0 (.status 401), .fetched 1 (.status 204)]

theorem single_flight_shared : ∃ tab,
    run (.opened ⟨some "access-1", some "refresh-1"⟩) sharedRefresh = some tab ∧
      tab.refreshes.length = 1 ∧
      fetchCount 0 (.opened ⟨some "access-1", some "refresh-1"⟩) sharedRefresh = 2 ∧
      fetchCount 1 (.opened ⟨some "access-1", some "refresh-1"⟩) sharedRefresh ≤ 2 := by
  have hrun : ∃ tab, run (.opened ⟨some "access-1", some "refresh-1"⟩) sharedRefresh = some tab ∧
      tab.refreshes.length = 1 := ⟨_, rfl, rfl⟩
  obtain ⟨tab, htab, hlen⟩ := hrun
  exact ⟨tab, htab, hlen, by decide, (single_flight htab).2.2 1⟩

end InterviewScheduler.Frontend
