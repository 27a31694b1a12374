import Authorship.Baseline.Store
import Mathlib.Data.List.Induction

/-
A store over time. A request is answered from the profile in use when it comes, and which profile
that is depends on the history only through the last one that was installed.
-/
namespace Authorship.Baseline

inductive Request where
  | swap (profile : Profile Float)
  | reload (content : Option String)
  | snapshot

/- A reload can fail. The others always give a profile. -/
abbrev Answer := Except StatsError (Profile Float)

/- A store together with all that its users were given. -/
structure Session where
  store : Store
  answers : List Answer
  snapshots : List (Profile Float)

namespace Session

def start (store : Store) : Session := ⟨store, [], []⟩

def step (s : Session) : Request → Session
  | .swap profile =>
    let (replaced, store) := s.store.swap profile
    { s with store, answers := s.answers ++ [.ok replaced] }
  | .reload content =>
    let (answer, store) := s.store.reload content
    { s with store, answers := s.answers ++ [answer] }
  | .snapshot =>
    { s with
      answers := s.answers ++ [.ok s.store.current]
      snapshots := s.snapshots ++ [s.store.current] }

def run (s : Session) (requests : List Request) : Session := requests.foldl step s

end Session

inductive Reads : Option String → Except StatsError (Stats Float) → Prop where
  | missing : Reads none (.error .unreadable)
  | malformed {text : String} (illegible : Json.read text = none) :
      Reads (some text) (.error .malformed)
  | notAnObject {text : String} {v : Json.Value} (read : Json.read text = some v)
      (other : ∀ entries, v ≠ .object entries) : Reads (some text) (.error .notAnObject)
  | object {text : String} {entries : List (String × Json.Value)}
      (read : Json.read text = some (.object entries)) :
      Reads (some text) (.ok (.ofEntries entries))

/-- One request: the profile in use before it, the answer, and the profile in use after it. -/
inductive Serves (topCount : Nat) :
    Profile Float → Request → Answer → Profile Float → Prop where
  | swapped (current profile : Profile Float) :
      Serves topCount current (.swap profile) (.ok current) profile
  | reloaded {content : Option String} {stats : Stats Float} (reads : Reads content (.ok stats))
      (current : Profile Float) :
      Serves topCount current (.reload content) (.ok (.ofStats stats topCount))
        (.ofStats stats topCount)
  | refused {content : Option String} {e : StatsError} (reads : Reads content (.error e))
      (current : Profile Float) : Serves topCount current (.reload content) (.error e) current
  | taken (current : Profile Float) : Serves topCount current .snapshot (.ok current) current

def Installs (topCount : Nat) (profile : Profile Float) : Request → Prop
  | .swap other => profile = other
  | .reload content => ∃ stats, Reads content (.ok stats) ∧ profile = .ofStats stats topCount
  | .snapshot => False

/-- No later request installs another one. -/
def LatestInstalled (topCount : Nat) (profile : Profile Float) (requests : List Request) : Prop :=
  ∃ before request after, requests = before ++ request :: after ∧
    Installs topCount profile request ∧
    ∀ later ∈ after, ∀ other, ¬ Installs topCount other later

def NothingInstalled (topCount : Nat) (requests : List Request) : Prop :=
  ∀ request ∈ requests, ∀ profile, ¬ Installs topCount profile request

theorem reads_unique {content : Option String} {outcome outcome' : Except StatsError (Stats Float)}
    (reads : Reads content outcome) (reads' : Reads content outcome') : outcome = outcome' := by
  cases reads with
  | missing => cases reads'; rfl
  | malformed illegible => cases reads' <;> simp_all
  | notAnObject read other =>
    cases reads' with
    | object read' => exact absurd (Option.some.inj (read.symm.trans read')) (other _)
    | _ => simp_all
  | object read =>
    cases reads' with
    | notAnObject read' other => exact absurd (Option.some.inj (read'.symm.trans read)) (other _)
    | _ => simp_all

theorem load_profile_reads (content : Option String) (topCount : Nat) :
    ∃ outcome, Reads content outcome ∧
      loadProfile content topCount = outcome.map (Profile.ofStats · topCount) := by
  cases content with
  | none => exact ⟨_, .missing, rfl⟩
  | some text =>
    simp only [loadProfile, Stats.parse]
    cases read : Json.read text with
    | none => exact ⟨_, .malformed read, rfl⟩
    | some v =>
      cases v with
      | object entries => exact ⟨_, .object read, rfl⟩
      | _ => exact ⟨_, .notAnObject read (by simp), rfl⟩

theorem opened_profile (content : Option String) (fallback : Fallback) (topCount : Nat) :
    ∃ outcome, Reads content outcome ∧ (Store.ofContent content fallback topCount).current =
      match outcome with
      | .ok stats => .ofStats stats topCount
      | .error _ => fallback.profile := by
  obtain ⟨outcome, reads, loaded⟩ := load_profile_reads content topCount
  refine ⟨outcome, reads, ?_⟩
  simp only [Store.ofContent, loadProfileOr, loaded]
  cases outcome <;> rfl

theorem serves_installs_or_keeps {topCount : Nat} {current next : Profile Float}
    {request : Request} {answer : Answer} (serves : Serves topCount current request answer next) :
    Installs topCount next request ∨
      next = current ∧ ∀ profile, ¬ Installs topCount profile request := by
  cases serves with
  | swapped => exact Or.inl rfl
  | reloaded reads => exact Or.inl ⟨_, reads, rfl⟩
  | refused reads =>
    refine Or.inr ⟨rfl, ?_⟩
    rintro profile ⟨stats, other, -⟩
    exact nomatch reads_unique reads other
  | taken => exact Or.inr ⟨rfl, fun _ => id⟩

theorem latest_before_idle {topCount : Nat} {profile : Profile Float} {earlier : List Request}
    {request : Request} (latest : LatestInstalled topCount profile earlier)
    (idle : ∀ other, ¬ Installs topCount other request) :
    LatestInstalled topCount profile (earlier ++ [request]) := by
  obtain ⟨before, chosen, after, parts, installs, silent⟩ := latest
  refine ⟨before, chosen, after ++ [request], by simp [parts], installs, ?_⟩
  intro later member
  rcases List.mem_append.mp member with inAfter | isLast
  · exact silent later inAfter
  · exact List.mem_singleton.mp isLast ▸ idle

theorem nothing_before_idle {topCount : Nat} {earlier : List Request} {request : Request}
    (nothing : NothingInstalled topCount earlier)
    (idle : ∀ profile, ¬ Installs topCount profile request) :
    NothingInstalled topCount (earlier ++ [request]) := by
  intro other member
  rcases List.mem_append.mp member with inEarlier | isLast
  · exact nothing other inEarlier
  · exact List.mem_singleton.mp isLast ▸ idle

namespace Session

theorem step_serves (s : Session) (request : Request) :
    (s.step request).store.topCount = s.store.topCount ∧
    ∃ answer, (s.step request).answers = s.answers ++ [answer] ∧
      Serves s.store.topCount s.store.current request answer (s.step request).store.current := by
  cases request with
  | swap profile => exact ⟨rfl, _, rfl, .swapped _ _⟩
  | snapshot => exact ⟨rfl, _, rfl, .taken _⟩
  | reload content =>
    obtain ⟨outcome, reads, loaded⟩ := load_profile_reads content s.store.topCount
    simp only [step, Store.reload, loaded]
    cases outcome with
    | ok stats => exact ⟨rfl, _, rfl, .reloaded reads _⟩
    | error e => exact ⟨rfl, _, rfl, .refused reads _⟩

/- Answers and snapshots are only ever added to. -/

theorem step_answers (s : Session) (request : Request) :
    ∃ more, (s.step request).answers = s.answers ++ more := by
  obtain ⟨-, answer, answered, -⟩ := s.step_serves request
  exact ⟨[answer], answered⟩

theorem step_snapshots (s : Session) (request : Request) :
    ∃ more, (s.step request).snapshots = s.snapshots ++ more := by
  cases request with
  | snapshot => exact ⟨_, rfl⟩
  | _ => exact ⟨[], (List.append_nil _).symm⟩

theorem run_append (s : Session) (before after : List Request) :
    s.run (before ++ after) = (s.run before).run after := List.foldl_append

theorem run_top_count (s : Session) (requests : List Request) :
    (s.run requests).store.topCount = s.store.topCount := by
  induction requests generalizing s with
  | nil => rfl
  | cons request rest ih => exact (ih (s.step request)).trans (s.step_serves request).1

theorem run_extends {β : Type} {field : Session → List β}
    (grows : ∀ s request, ∃ more, field (s.step request) = field s ++ more) (s : Session)
    (requests : List Request) : ∃ more, field (s.run requests) = field s ++ more := by
  induction requests generalizing s with
  | nil => exact ⟨[], (List.append_nil _).symm⟩
  | cons request rest ih =>
    obtain ⟨first, added⟩ := grows s request
    obtain ⟨more, later⟩ := ih (s.step request)
    refine ⟨first ++ more, ?_⟩
    calc field ((s.step request).run rest) = (field s ++ first) ++ more := by rw [later, added]
      _ = field s ++ (first ++ more) := List.append_assoc _ _ _

theorem run_answer_count (s : Session) (requests : List Request) :
    (s.run requests).answers.length = s.answers.length + requests.length := by
  induction requests generalizing s with
  | nil => rfl
  | cons request rest ih =>
    obtain ⟨-, answer, answered, -⟩ := s.step_serves request
    have later := ih (s.step request)
    rw [answered, List.length_append, List.length_singleton] at later
    rw [List.length_cons]
    change ((s.step request).run rest).answers.length = _
    omega

/- The induction is on the last request: what it installs is the latest, and if it installs nothing
the earlier history decides. -/
theorem run_current (s : Session) (requests : List Request) :
    LatestInstalled s.store.topCount (s.run requests).store.current requests ∨
      NothingInstalled s.store.topCount requests ∧
        (s.run requests).store.current = s.store.current := by
  induction requests using List.reverseRecOn with
  | nil => exact Or.inr ⟨by simp [NothingInstalled], rfl⟩
  | append_singleton earlier request ih =>
    have last : s.run (earlier ++ [request]) = (s.run earlier).step request := s.run_append _ _
    obtain ⟨-, answer, -, serves⟩ := (s.run earlier).step_serves request
    rw [run_top_count] at serves
    rw [last]
    rcases serves_installs_or_keeps serves with installs | ⟨kept, idle⟩
    · exact Or.inl ⟨earlier, request, [], rfl, installs, by simp⟩
    · rw [kept]
      rcases ih with latest | ⟨nothing, opened⟩
      · exact Or.inl (latest_before_idle latest idle)
      · exact Or.inr ⟨nothing_before_idle nothing idle, opened⟩

end Session

open Session

/-- The profile in use is the one that was installed last, or the one that the store was opened
with. Whatever the history is, each request is answered from the profile in use when it comes: a
reload either installs what the file says, ranked as the store was opened to rank, or gives the
error and changes nothing. What was answered and what was taken as a snapshot stays as it was. -/
theorem requests_served_from_latest_profile (content : Option String) (fallback : Fallback)
    (topCount : Nat) :
    (∃ outcome, Reads content outcome ∧ (Store.ofContent content fallback topCount).current =
      match outcome with
      | .ok stats => .ofStats stats topCount
      | .error _ => fallback.profile) ∧
    (∀ requests,
      let final := ((start (.ofContent content fallback topCount)).run requests).store
      LatestInstalled topCount final.current requests ∨ NothingInstalled topCount requests ∧
        final.current = (Store.ofContent content fallback topCount).current) ∧
    (∀ before request after,
      let opened := start (.ofContent content fallback topCount)
      let final := opened.run (before ++ request :: after)
      ∃ answer, final.answers[before.length]? = some answer ∧
        Serves topCount (opened.run before).store.current request answer
          (opened.run (before ++ [request])).store.current) ∧
    ∀ before after,
      let opened := start (.ofContent content fallback topCount)
      let final := opened.run (before ++ .snapshot :: after)
      final.snapshots[(opened.run before).snapshots.length]? =
        some (opened.run before).store.current := by
  refine ⟨opened_profile content fallback topCount, run_current (start _), ?_, ?_⟩
  · intro before request after opened final
    obtain ⟨answer, answered, serves⟩ := ((opened.run before).step_serves request).2
    have count := opened.run_answer_count before
    have none : opened.answers.length = 0 := rfl
    obtain ⟨more, later⟩ := run_extends step_answers ((opened.run before).step request) after
    have same : final = ((opened.run before).step request).run after := opened.run_append _ _
    refine ⟨answer, ?_, ?_⟩
    · rw [same, later, answered]
      simp [count, none]
    · rw [run_top_count] at serves
      rwa [opened.run_append]
  · intro before after opened final
    obtain ⟨more, later⟩ := run_extends step_snapshots ((opened.run before).step .snapshot) after
    have same : final = ((opened.run before).step .snapshot).run after := opened.run_append _ _
    rw [same, later]
    simp [step]

end Authorship.Baseline
