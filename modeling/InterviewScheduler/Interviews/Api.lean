import InterviewScheduler.Interviews.Lifecycle

/-! # The ten operations

What the routes do with a request: who the caller is, whether the route admits the caller, and the
service behind it. -/

namespace InterviewScheduler.Interviews

open InterviewScheduler.Core InterviewScheduler.Effects

/-- A request to one of the ten routes, with the user of its access token. -/
inductive Call where
  | createRequest (userId : Id) (data : CreateInterviewRequest)
  | updateRequest (userId requestId : Id) (data : UpdateInterviewRequest)
  | submit (userId requestId : Id) (data : Availability.SubmitAvailabilityRequest)
  | generate (userId requestId : Id)
  | book (userId requestId slotId : Id)
  | decline (userId requestId : Id) (reason : Option (Text 1000))
  | reschedule (userId requestId : Id) (reason : Option (Text 1000))
  | cancel (userId requestId : Id) (reason : Option (Text 1000))
  | recordOutcome (userId requestId : Id) (outcome : Outcome) (notes : Option (Text 2000))
  | createNextRound (userId requestId : Id) (data : NextRoundRequest)

inductive Response where
  | request (out : InterviewRequestOut)
  | availability (row : CandidateAvailability)
  | recommendations (out : Scheduling.RecommendationResponse)
  | event (row : InterviewEvent)
  | status (interviewRequestStatus : RequestStatus)
  deriving DecidableEq, Repr

variable (pf : Platform)

/-- The handler of a call. -/
def handle : Call → M Response
  | .createRequest userId data => do
    let user ← getCurrentUser userId
    requireRole user .admin
    .request <$> createRequest user data
  | .updateRequest userId requestId data => do
    let user ← getCurrentUser userId
    requireRole user .admin
    .request <$> updateRequest user requestId data
  | .submit userId requestId data => do
    let user ← getCurrentUser userId
    requireRole user .candidate
    Availability.validate pf data
    .availability <$> Availability.submit user requestId data
  | .generate userId requestId => do
    let user ← getCurrentUser userId
    adminOrOwningCandidate user requestId
    .recommendations <$> Scheduling.generate pf user requestId
  | .book userId requestId slotId => do
    let user ← getCurrentUser userId
    adminOrOwningCandidate user requestId
    .event <$> Booking.book pf user requestId slotId
  | .decline userId requestId reason => do
    let user ← getCurrentUser userId
    requireRole user .panelist
    .status <$> decline pf user requestId reason
  | .reschedule userId requestId reason => do
    let user ← getCurrentUser userId
    adminOrOwningCandidate user requestId
    .status <$> reschedule pf user requestId reason
  | .cancel userId requestId reason => do
    let user ← getCurrentUser userId
    requireRole user .admin
    .status <$> cancel pf user requestId reason
  | .recordOutcome userId requestId outcome notes => do
    let user ← getCurrentUser userId
    requireRole user .admin
    .request <$> recordOutcome pf user requestId outcome notes
  | .createNextRound userId requestId data => do
    let user ← getCurrentUser userId
    requireRole user .admin
    .request <$> createNextRound user requestId data

end InterviewScheduler.Interviews
