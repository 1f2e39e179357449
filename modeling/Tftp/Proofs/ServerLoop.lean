import Tftp.Server.Basic

namespace Tftp

namespace ServerLoop

variable {told : Bool} {ended : Nat → Bool} {loop next : ServerLoop}

/-- What a step of the loop can be. -/
inductive Stepped (told : Bool) (ended : Nat → Bool) (loop : ServerLoop) : Step → ServerLoop → Prop where
  | check (hs : loop.stage = .checking) :
    Stepped told ended loop .check { loop with stage := if told then .joining else .selecting }
  | notice (ht : told = true) (hs : loop.stage = .selecting ∨ ∃ milliseconds, loop.stage = .pausing milliseconds) :
    Stepped told ended loop .notice { loop with stage := .joining }
  | fail (hs : loop.stage = .selecting) (milliseconds failures : Nat) :
    Stepped told ended loop .fail { loop with stage := .pausing milliseconds, failures }
  | resume (milliseconds : Nat) (hs : loop.stage = .pausing milliseconds) :
    Stepped told ended loop .resume { loop with stage := .checking }
  | joinAny (task : Nat) (hm : task ∈ loop.tasks) (ho : ended task = true) (hs : loop.stage = .selecting) :
    Stepped told ended loop (.join task) { loop with stage := .checking, tasks := loop.tasks.erase task }
  | joinLast (task : Nat) (hm : task ∈ loop.tasks) (ho : ended task = true) (hs : loop.stage = .joining) :
    Stepped told ended loop (.join task) { loop with tasks := loop.tasks.erase task }
  | leave (hs : loop.stage = .joining) (ht : loop.tasks = []) :
    Stepped told ended loop .leave { loop with stage := .returned }

theorem step_stepped {step : Step} (h : loop.step told ended step = some next) :
    Stepped told ended loop step next := by
  cases step with
  | check =>
    simp only [ServerLoop.step] at h
    split at h
    · next hs =>
      cases h
      exact .check hs
    · cases h
  | notice =>
    simp only [ServerLoop.step] at h
    split at h
    · next hs =>
      split at h
      · next ht =>
        cases h
        exact .notice ht (.inl hs)
      · cases h
    · next milliseconds hs =>
      split at h
      · next ht =>
        cases h
        exact .notice ht (.inr ⟨milliseconds, hs⟩)
      · cases h
    · cases h
  | fail =>
    simp only [ServerLoop.step] at h
    split at h
    · next hs =>
      cases h
      exact .fail hs _ _
    · cases h
  | resume =>
    simp only [ServerLoop.step] at h
    split at h
    · next milliseconds hs =>
      cases h
      exact .resume milliseconds hs
    · cases h
  | join task =>
    simp only [ServerLoop.step, Bool.and_eq_true, List.contains_iff_mem] at h
    split at h
    · next hjoin =>
      split at h
      · next hs =>
        cases h
        exact .joinAny task hjoin.1 hjoin.2 hs
      · next hs =>
        cases h
        exact .joinLast task hjoin.1 hjoin.2 hs
      · cases h
    · cases h
  | leave =>
    simp only [ServerLoop.step, Bool.and_eq_true, decide_eq_true_eq, List.isEmpty_iff] at h
    split at h
    · next hleave =>
      cases h
      exact .leave hleave.1 hleave.2
    · cases h

theorem Stepped.mem_tasks {step : Step} (h : Stepped told ended loop step next) {task : Nat}
    (hm : task ∈ loop.tasks) (ho : ended task = false) : task ∈ next.tasks := by
  have herase : ∀ other, ended other = true → task ∈ loop.tasks.erase other := fun other hother =>
    (List.mem_erase_of_ne fun heq => by rw [heq, hother] at ho; cases ho).mpr hm
  cases h with
  | joinAny other _ hother => exact herase other hother
  | joinLast other _ hother => exact herase other hother
  | _ => exact hm

/-- A loop that knows of the word to stop, or is about to, takes no datagram again. -/
theorem Stepped.deaf {step : Step} (h : Stepped true ended loop step next) (hs : loop.stage ≠ .selecting) :
    next.stage ≠ .selecting := by
  cases h with
  | joinLast => exact hs
  | _ => simp

theorem Stepped.not_returned {step : Step} (h : Stepped told ended loop step next) : loop.stage ≠ .returned := by
  intro hr
  cases h with
  | notice _ hs =>
    rw [hr] at hs
    simp at hs
  | check hs | fail hs | resume _ hs | joinAny _ _ _ hs | joinLast _ _ _ hs | leave hs =>
    rw [hr] at hs
    cases hs

theorem Stepped.tasks_subset {step : Step} (h : Stepped told ended loop step next) {task : Nat}
    (hm : task ∈ next.tasks) : task ∈ loop.tasks := by
  cases h with
  | joinAny | joinLast => exact List.mem_of_mem_erase hm
  | _ => exact hm

theorem Stepped.told_of_joining {step : Step} (h : Stepped told ended loop step next)
    (hs : next.stage = .joining ∨ next.stage = .returned)
    (hl : loop.stage = .joining → told = true) : told = true := by
  cases h with
  | check =>
    cases told with
    | true => rfl
    | false => simp at hs
  | notice ht => exact ht
  | joinLast _ _ _ hj | leave hj => exact hl hj
  | _ => simp at hs

theorem Stepped.empty_of_returned {step : Step} (h : Stepped told ended loop step next)
    (hr : next.stage = .returned) : next.tasks = [] := by
  cases h with
  | leave _ ht => exact ht
  | joinLast _ _ _ hs =>
    rw [hs] at hr
    cases hr
  | check =>
    cases told <;> cases hr
  | _ => cases hr

theorem find?_over {tasks : List Nat} (h : tasks ≠ []) (ho : ∀ task ∈ tasks, ended task = true) :
    ∃ task, tasks.find? ended = some task ∧ task ∈ tasks ∧ ended task = true := by
  obtain ⟨first, rest, rfl⟩ := List.exists_cons_of_ne_nil h
  have hfirst := ho first List.mem_cons_self
  exact ⟨first, List.find?_cons_of_pos hfirst, List.mem_cons_self, hfirst⟩

theorem settle_selecting (ended : Nat → Bool) (fuel : Nat) (loop : ServerLoop)
    (h : loop.stage = .selecting ∧ 2 * loop.tasks.length ≤ fuel ∨
      loop.stage = .checking ∧ 2 * loop.tasks.length < fuel) :
    (loop.settle false ended fuel).stage = .selecting := by
  induction fuel generalizing loop with
  | zero =>
    rcases h with ⟨hs, -⟩ | ⟨-, hlt⟩
    · exact hs
    · exact absurd hlt (Nat.not_lt_zero _)
  | succ fuel ih =>
    rw [settle]
    rcases h with ⟨hs, hle⟩ | ⟨hs, hlt⟩
    · cases hf : loop.tasks.find? ended with
      | none => simp [next?, hs, hf]
      | some task =>
        have hmem := List.mem_of_find?_eq_some hf
        have hover := List.find?_some hf
        simp only [next?, hs, hf, Bool.false_eq_true, if_false, Option.map_some, Option.bind_some, step,
          List.contains_iff_mem.mpr hmem, hover, Bool.and_self, if_true]
        refine ih _ (.inr ⟨rfl, ?_⟩)
        have hpos := List.length_pos_of_mem hmem
        simp only [List.length_erase_of_mem hmem]
        omega
    · simp only [next?, hs, Option.bind_some, step, if_true, Bool.false_eq_true, if_false]
      exact ih _ (.inl ⟨rfl, Nat.le_of_lt_succ hlt⟩)

theorem settle_joining (ended : Nat → Bool) (fuel : Nat) (loop : ServerLoop) (hs : loop.stage = .joining)
    (ho : ∀ task ∈ loop.tasks, ended task = true) (hf : loop.tasks.length < fuel) :
    (loop.settle true ended fuel).stage = .returned := by
  induction fuel generalizing loop with
  | zero => exact absurd hf (Nat.not_lt_zero _)
  | succ fuel ih =>
    rw [settle]
    by_cases hn : loop.tasks = []
    · simp only [next?, hs, hn, List.isEmpty_nil, if_true, Option.bind_some, step, decide_true, Bool.and_self]
      cases fuel <;> rfl
    · obtain ⟨task, hfind, hmem, hover⟩ := find?_over hn ho
      have hsome : loop.tasks.isEmpty = false := by simpa using hn
      simp only [next?, hs, hsome, hfind, Bool.false_eq_true, if_false, Option.map_some, Option.bind_some, step,
        List.contains_iff_mem.mpr hmem, hover, Bool.and_self, if_true]
      refine ih _ rfl (fun other hother => ho other (List.mem_of_mem_erase hother)) ?_
      have hpos := List.length_pos_of_mem hmem
      simp only [List.length_erase_of_mem hmem]
      omega

theorem settle_returned (ended : Nat → Bool) (loop : ServerLoop) (ho : ∀ task ∈ loop.tasks, ended task = true) :
    (loop.settle true ended (2 * loop.tasks.length + 3)).stage = .returned := by
  cases hs : loop.stage with
  | checking | selecting | pausing =>
    rw [settle]
    simp only [next?, hs, if_true, Option.bind_some, step]
    exact settle_joining ended _ _ rfl ho (by simp only; omega)
  | joining => exact settle_joining ended _ loop hs ho (by omega)
  | returned =>
    rw [settle]
    simp [next?, hs]

end ServerLoop

namespace Server

theorem settle_listening {server : Server} (ht : server.told = false)
    (hs : server.loop.stage = .selecting ∨ server.loop.stage = .checking) : server.settle.listening = true := by
  rw [listening, settle, ht]
  refine decide_eq_true (ServerLoop.settle_selecting _ _ _ ?_)
  rcases hs with hs | hs
  · exact .inl ⟨hs, by omega⟩
  · exact .inr ⟨hs, by omega⟩

theorem attend_listening {server : Server} (ht : server.told = false) (task : Option Nat) :
    (server.attend task).listening = true :=
  settle_listening ht (.inr rfl)

end Server

end Tftp
