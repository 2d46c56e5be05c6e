import InterviewScheduler.Core.Calls

/-! # The calendar service

`calendar/service.py` with its repository: whether a connection can be used, the refresh of a lapsed
token, free/busy data behind a cache, and the creation and deletion of events. -/

namespace InterviewScheduler.Calendar

open InterviewScheduler.Engine InterviewScheduler.Core InterviewScheduler.Effects

/-! ### Repository -/

def getByUser (userId : Id) : M (Option CalendarConnection) := .perform (.connectionOf userId)

def setStatus (conn : CalendarConnection) (status : ConnectionStatus) : M CalendarConnection := do
  dbAddSide (.setConnectionStatus conn.userId status)
  dbFlush
  pure { conn with status }

def updateAccessToken (conn : CalendarConnection) (accessTokenEncrypted : String)
    (tokenExpiresAt : Instant) : M CalendarConnection := do
  dbAddSide (.setAccessToken conn.userId accessTokenEncrypted tokenExpiresAt)
  dbFlush
  pure { conn with
    accessTokenEncrypted := some accessTokenEncrypted
    tokenExpiresAt := some tokenExpiresAt
    status := .connected }

/-! ### Tokens -/

variable (pf : Platform)

def decrypt (ciphertext : String) : M String := Prog.orRaise (pf.decrypt ciphertext) .tokenCryptoError

def encrypt (plaintext : String) : M String := Prog.orRaise (pf.encrypt plaintext) .tokenCryptoError

/-- `_EXPIRY_SKEW` -/
def expirySkew : ℤ := 60 * 1000000

/-- `_refresh` -/
def refresh (conn : CalendarConnection) (panelistEmail : String) : M CalendarConnection :=
  match conn.refreshTokenEncrypted.filter (· ≠ "") with
  | none => do
    -- the grant lapsed with nothing to refresh from
    let _ ← setStatus conn .expired
    dbCommit
    throw (.app .calendarConnectionExpiredError
      ("Panelist " ++ panelistEmail ++ " must reconnect their Google Calendar (session expired)"))
  | some refreshToken => do
    let bundle ← tryCatch
      (do let token ← decrypt pf refreshToken
          .perform (.refreshToken token))
      fun
        | .calendarAuthError => do
          let _ ← setStatus conn .revoked
          dbCommit
          throw (.app .calendarConnectionRevokedError
            ("Panelist " ++ panelistEmail ++
              " must reconnect their Google Calendar (refresh rejected)"))
        | .calendarTransportError => throw (.ofClass .calendarSyncFailedError)
        | e => throw e
    let accessTokenEncrypted ← encrypt pf bundle.accessToken
    let t ← now
    let conn ← updateAccessToken conn accessTokenEncrypted (t + bundle.expiresIn * 1000000)
    dbCommit
    pure conn

/-- A CONNECTED connection, or one of the three 424 errors. -/
def ensureUsable (conn : CalendarConnection) (panelistEmail : String) : M CalendarConnection := do
  Prog.raiseIf (conn.status = .revoked) (.app .calendarConnectionRevokedError
    ("Panelist " ++ panelistEmail ++ " must reconnect their Google Calendar (access revoked)"))
  Prog.raiseIf (conn.status = .disconnected) (.app .panelistCalendarNotConnectedError
    ("Panelist " ++ panelistEmail ++ " has not connected their Google Calendar"))
  let t ← now
  if conn.status = .expired ∨ conn.tokenExpiresAt.any (fun exp => exp ≤ t + expirySkew) then
    refresh pf conn panelistEmail
  else pure conn

/-- The connection of a panelist, if it can be used. -/
def usableConnection (user : User) : M CalendarConnection := do
  let conn ← getByUser user.id
  let conn ← Prog.orRaise conn (.app .panelistCalendarNotConnectedError
    ("Panelist " ++ user.email ++ " has not connected their Google Calendar"))
  ensureUsable pf conn user.email

def accessTokenOf (conn : CalendarConnection) : M String :=
  decrypt pf (conn.accessTokenEncrypted.getD "")

/-! ### Free/busy and events -/

/-- The two exceptions of the client become one error of the service. -/
def googleError {α : Type} (call : M α) (cls : ErrorClass) : M α :=
  tryCatch call fun
    | .calendarAuthError => throw (.ofClass cls)
    | .calendarTransportError => throw (.ofClass cls)
    | e => throw e

/-- Free/busy data, cached for a quarter of an hour. Losing Redis costs the cache only. An entry with
no blocks is falsy as a list but not as JSON, and is used. -/
def getFreeBusy (conn : CalendarConnection) (timeMin timeMax : Instant) : M (List BusyInterval) := do
  let key : FreeBusyKey := ⟨conn.userId, timeMin, timeMax⟩
  let cached ← Prog.attempt (.perform (.cacheGet key))
  match cached with
  | .ok (some busy) => pure busy
  | _ => do
    let busy ← googleError (do
      let token ← accessTokenOf pf conn
      .perform (.freeBusy token timeMin timeMax)) .calendarSyncFailedError
    let _ ← Prog.attempt (.perform (.cacheSet key busy))
    pure busy

def createEvent (accessToken : String) (draft : EventDraft) : M CalendarEvent :=
  googleError (.perform (.createEvent accessToken draft)) .calendarEventCreationFailedError

/-- Best-effort: `true` if the event is gone. -/
def deleteEvent (accessToken eventId : String) : M Bool :=
  tryCatch (do
      Prog.perform (.deleteEvent accessToken eventId)
      pure true)
    fun
      | .calendarAuthError => pure false
      | .calendarTransportError => pure false
      | e => throw e

end InterviewScheduler.Calendar
