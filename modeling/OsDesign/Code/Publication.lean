import OsDesign.Code.Creation

/-!
Runs of the threads' calls with creations in progress. As long as the timer leaves the
window alone, a thread that can be reached by the scheduler is complete or is being
created by the running thread itself. A switch in the window lets it start before that.
-/
namespace OsDesign.Code

open Virt Pthread Runs

namespace Creation

/-- The invariant of the undisturbed runs. -/
structure Sound (s : Creation) : Prop where
  window : ∀ c p, s.create c = some p → p.inWindow = true → s.running = some c
  creator : ∀ c p, s.create c = some p → s.life c = .started
  initialised : ∀ c p, s.create c = some p → p = .init ∨ s.gPthreadInit = true
  owned : ∀ c p ti, s.create c = some p → p.block = some ti →
    s.life ti = .made ∧ s.counted ti = false
  unique : ∀ c p c' p' ti, s.create c = some p → p.block = some ti → s.create c' = some p' →
    p'.block = some ti → c = c'
  hidden : ∀ c p ti, s.create c = some p → p.block = some ti → p.inWindow = false →
    ti ∉ s.sched.threads
  queued : ∀ c p ti, s.create c = some p → p.block = some ti → p.inWindow = true →
    ti ∈ s.sched.ready
  assigned : ∀ c p ti, s.create c = some p → p.block = some ti → p.behindTid = true →
    s.assigned ti = true
  unknown : ∀ t, s.life t = .unknown → t ∉ s.sched.threads ∧ s.counted t = false
  complete : ∀ t, t ∈ s.sched.threads → s.life t = .made → s.Complete t ∨
    ∃ c p, s.create c = some p ∧ p.block = some t ∧ p.inWindow = true

variable {s s' : Creation} {c block t : ThreadId} {p p' : Statement} {tid mu : Nat}

theorem start_sound (main : ThreadId) (tid mu : ThreadId → Nat) : (start main tid mu).Sound := by
  have idle : ∀ c p, (start main tid mu).create c ≠ some p := fun c p h => nomatch h
  refine ⟨?_, ?_, ?_, ?_, ?_, ?_, ?_, ?_, ?_, ?_⟩
  · exact fun c p h => absurd h (idle c p)
  · exact fun c p h => absurd h (idle c p)
  · exact fun c p h => absurd h (idle c p)
  · exact fun c p ti h => absurd h (idle c p)
  · exact fun c p c' p' ti h => absurd h (idle c p)
  · exact fun c p ti h => absurd h (idle c p)
  · exact fun c p ti h => absurd h (idle c p)
  · exact fun c p ti h => absurd h (idle c p)
  · intro t _
    simp [start, Sched.threads]
  · intro t h
    simp [start, Sched.threads] at h

/-- Only the running thread can be in the window of a call. -/
theorem Sound.no_window (sound : s.Sound) (outside : ¬ s.InWindow) (c : ThreadId)
    (p : Statement) (h : s.create c = some p) : p.inWindow = false := by
  cases hp : p.inWindow with
  | false => rfl
  | true => exact absurd ⟨c, p, sound.window c p h hp, h, hp⟩ outside

/-- The scheduler may choose another thread while no call is in its window. -/
theorem Sound.switched (sound : s.Sound) (outside : ¬ s.InWindow) {a : Sched}
    (sub : ∀ t, t ∈ a.threads → t ∈ s.sched.threads) : Sound { s with sched := a } := by
  have none := sound.no_window outside
  refine ⟨?_, sound.creator, sound.initialised, sound.owned, sound.unique, ?_, ?_,
    sound.assigned, ?_, ?_⟩
  · intro c p h hp
    rw [none c p h] at hp
    cases hp
  · exact fun c p ti h hb hp hmem => sound.hidden c p ti h hb hp (sub ti hmem)
  · intro c p ti h hb hp
    rw [none c p h] at hp
    cases hp
  · exact fun t ht => ⟨fun hmem => (sound.unknown t ht).1 (sub t hmem), (sound.unknown t ht).2⟩
  · exact fun t hmem ht => sound.complete t (sub t hmem) ht

/-- A thread that is neither under creation nor in a call starts or exits. -/
theorem Sound.lives (sound : s.Sound) {l : Life} (hl : l = .started ∨ l = .exited)
    (calls : l = .exited → s.create t = none)
    (notOwned : ∀ c p, s.create c = some p → p.block ≠ some t) :
    Sound { s with life := Function.update s.life t l } := by
  have hother : ∀ {t' k}, t' ≠ t → Function.update s.life t l t' = k → s.life t' = k :=
    fun hne h => (Function.update_of_ne hne l s.life).symm.trans h
  refine ⟨sound.window, ?_, sound.initialised, ?_, sound.unique, sound.hidden, sound.queued,
    sound.assigned, ?_, ?_⟩
  · intro c p h
    change Function.update s.life t l c = .started
    by_cases hc : c = t
    · subst hc
      rw [Function.update_self]
      refine hl.resolve_right ?_
      intro exits
      simp [calls exits] at h
    · rw [Function.update_of_ne hc]
      exact sound.creator c p h
  · intro c p ti h hb
    have hne : ti ≠ t := by
      rintro rfl
      exact notOwned c p h hb
    change Function.update s.life t l ti = .made ∧ _
    rw [Function.update_of_ne hne]
    exact sound.owned c p ti h hb
  · intro t' ht'
    by_cases hne : t' = t
    · subst hne
      have same : l = .unknown := (Function.update_self t' l s.life).symm.trans ht'
      rcases hl with rfl | rfl <;> cases same
    · exact sound.unknown t' (hother hne ht')
  · intro t' hmem ht'
    by_cases hne : t' = t
    · subst hne
      have same : l = .made := (Function.update_self t' l s.life).symm.trans ht'
      rcases hl with rfl | rfl <;> cases same
    · exact sound.complete t' hmem (hother hne ht')

theorem create_goto_self (s : Creation) (c : ThreadId) (p : Statement) :
    (s.goto c p).create c = some p := Function.update_self ..

theorem create_goto_of_ne {c' : ThreadId} (h : c' ≠ c) :
    (s.goto c p).create c' = s.create c' := Function.update_of_ne h ..

theorem create_goto_cases {c' : ThreadId} {q : Statement}
    (h : (s.goto c p).create c' = some q) :
    (c' = c ∧ q = p) ∨ (c' ≠ c ∧ s.create c' = some q) := by
  by_cases hc : c' = c
  · subst hc
    rw [create_goto_self] at h
    exact .inl ⟨rfl, (Option.some.inj h).symm⟩
  · rw [create_goto_of_ne hc] at h
    exact .inr ⟨hc, h⟩

/-- A statement that keeps block and window, or comes before there is a block. -/
theorem Sound.goto (sound : s.Sound) (runs : s.running = some c) (started : s.life c = .started)
    (init : p' = .init ∨ s.gPthreadInit = true)
    (block : ∀ ti, p'.block = some ti → ∃ p, s.create c = some p ∧ p.block = some ti ∧
      p.inWindow = p'.inWindow ∧
      (p'.behindTid = true → p.behindTid = true ∨ s.assigned ti = true))
    (keeps : ∀ p, s.create c = some p → p.inWindow = true →
      p'.inWindow = true ∧ p'.block = p.block) : (s.goto c p').Sound := by
  -- a call with a block had the same block before the statement
  have hold : ∀ c' q ti, (s.goto c p').create c' = some q → q.block = some ti →
      ∃ q', s.create c' = some q' ∧ q'.block = some ti ∧ q'.inWindow = q.inWindow ∧
        (q.behindTid = true → q'.behindTid = true ∨ s.assigned ti = true) := by
    intro c' q ti h hb
    rcases create_goto_cases h with ⟨rfl, rfl⟩ | ⟨_, h⟩
    · exact block ti hb
    · exact ⟨q, h, hb, rfl, .inl⟩
  refine ⟨?_, ?_, ?_, ?_, ?_, ?_, ?_, ?_, sound.unknown, ?_⟩
  · intro c' q h hw
    rcases create_goto_cases h with ⟨rfl, rfl⟩ | ⟨_, h⟩
    · exact runs
    · exact sound.window c' q h hw
  · intro c' q h
    rcases create_goto_cases h with ⟨rfl, rfl⟩ | ⟨_, h⟩
    · exact started
    · exact sound.creator c' q h
  · intro c' q h
    rcases create_goto_cases h with ⟨rfl, rfl⟩ | ⟨_, h⟩
    · exact init
    · exact sound.initialised c' q h
  · intro c' q ti h hb
    obtain ⟨q', h', hb', -, -⟩ := hold c' q ti h hb
    exact sound.owned c' q' ti h' hb'
  · intro c₁ q₁ c₂ q₂ ti h₁ hb₁ h₂ hb₂
    obtain ⟨q₁', h₁', hb₁', -, -⟩ := hold c₁ q₁ ti h₁ hb₁
    obtain ⟨q₂', h₂', hb₂', -, -⟩ := hold c₂ q₂ ti h₂ hb₂
    exact sound.unique c₁ q₁' c₂ q₂' ti h₁' hb₁' h₂' hb₂'
  · intro c' q ti h hb hw
    obtain ⟨q', h', hb', hw', -⟩ := hold c' q ti h hb
    exact sound.hidden c' q' ti h' hb' (hw'.trans hw)
  · intro c' q ti h hb hw
    obtain ⟨q', h', hb', hw', -⟩ := hold c' q ti h hb
    exact sound.queued c' q' ti h' hb' (hw'.trans hw)
  · intro c' q ti h hb ha
    obtain ⟨q', h', hb', -, ha'⟩ := hold c' q ti h hb
    rcases ha' ha with behind | assigned
    · exact sound.assigned c' q' ti h' hb' behind
    · exact assigned
  · intro t hmem hmade
    rcases sound.complete t hmem hmade with done | ⟨c', q, h, hb, hw⟩
    · exact .inl done
    · right
      by_cases hc : c' = c
      · subst hc
        obtain ⟨hw', hb'⟩ := keeps q h hw
        exact ⟨c', p', create_goto_self s c' p', hb'.trans hb, hw'⟩
      · exact ⟨c', q, (create_goto_of_ne hc).trans h, hb, hw⟩

/-- `alloc_thread_info` makes a thread that was unknown. -/
theorem Sound.allocated (sound : s.Sound) (h : s.create c = some .allocThreadInfo)
    (fresh : s.life block = .unknown) {a : Sched} (current : a.current = s.sched.current)
    (ready : a.ready = s.sched.ready) (wait : a.wait = s.sched.wait) :
    Sound ({ s with sched := a, life := Function.update s.life block .made }.goto c
      (.countThread block)) := by
  have hthreads : a.threads = s.sched.threads := by
    rw [Sched.threads, Sched.threads, current, ready, wait]
  obtain ⟨hidden, uncounted⟩ := sound.unknown block fresh
  have hother : ∀ c' q ti, s.create c' = some q → q.block = some ti → ti ≠ block := by
    rintro c' q ti h' hb rfl
    rw [(sound.owned c' q ti h' hb).1] at fresh
    cases fresh
  have hcreator : ∀ c' q, s.create c' = some q → c' ≠ block := by
    rintro c' q h' rfl
    rw [sound.creator c' q h'] at fresh
    cases fresh
  refine ⟨?_, ?_, ?_, ?_, ?_, ?_, ?_, ?_, ?_, ?_⟩
  · intro c' q h' hw
    rcases create_goto_cases h' with ⟨rfl, rfl⟩ | ⟨_, h'⟩
    · cases hw
    · change (if s.gPthreadInit = true then a.current else some s.main) = some c'
      rw [current]
      exact sound.window c' q h' hw
  · intro c' q h'
    have calls : ∃ q', s.create c' = some q' := by
      rcases create_goto_cases h' with ⟨rfl, rfl⟩ | ⟨_, h'⟩
      · exact ⟨_, h⟩
      · exact ⟨q, h'⟩
    obtain ⟨q', hq'⟩ := calls
    exact (Function.update_of_ne (hcreator c' q' hq') _ _).trans (sound.creator c' q' hq')
  · intro c' q h'
    rcases create_goto_cases h' with ⟨rfl, rfl⟩ | ⟨_, h'⟩
    · exact .inr ((sound.initialised c' _ h).resolve_left (by simp))
    · exact sound.initialised c' q h'
  · intro c' q ti h' hb
    rcases create_goto_cases h' with ⟨rfl, rfl⟩ | ⟨_, h'⟩
    · obtain rfl : block = ti := Option.some.inj hb
      exact ⟨Function.update_self .., uncounted⟩
    · have owned := sound.owned c' q ti h' hb
      exact ⟨(Function.update_of_ne (hother c' q ti h' hb) _ _).trans owned.1, owned.2⟩
  · intro c₁ q₁ c₂ q₂ ti h₁ hb₁ h₂ hb₂
    rcases create_goto_cases h₁ with ⟨rfl, rfl⟩ | ⟨_, old₁⟩
    · rcases create_goto_cases h₂ with ⟨rfl, rfl⟩ | ⟨_, old₂⟩
      · rfl
      · exact absurd (Option.some.inj hb₁).symm (hother c₂ q₂ ti old₂ hb₂)
    · rcases create_goto_cases h₂ with ⟨rfl, rfl⟩ | ⟨_, old₂⟩
      · exact absurd (Option.some.inj hb₂).symm (hother c₁ q₁ ti old₁ hb₁)
      · exact sound.unique c₁ q₁ c₂ q₂ ti old₁ hb₁ old₂ hb₂
  · intro c' q ti h' hb hw
    change ti ∉ a.threads
    rw [hthreads]
    rcases create_goto_cases h' with ⟨rfl, rfl⟩ | ⟨_, h'⟩
    · exact Option.some.inj hb ▸ hidden
    · exact sound.hidden c' q ti h' hb hw
  · intro c' q ti h' hb hw
    change ti ∈ a.ready
    rw [ready]
    rcases create_goto_cases h' with ⟨rfl, rfl⟩ | ⟨_, h'⟩
    · cases hw
    · exact sound.queued c' q ti h' hb hw
  · intro c' q ti h' hb ha
    rcases create_goto_cases h' with ⟨rfl, rfl⟩ | ⟨_, h'⟩
    · cases ha
    · exact sound.assigned c' q ti h' hb ha
  · intro t ht
    change Function.update s.life block .made t = .unknown at ht
    have hne : t ≠ block := by
      rintro rfl
      simp at ht
    change t ∉ a.threads ∧ _
    rw [hthreads]
    rw [Function.update_of_ne hne] at ht
    exact sound.unknown t ht
  · intro t hmem ht
    change Function.update s.life block .made t = .made at ht
    change t ∈ a.threads at hmem
    rw [hthreads] at hmem
    have hne : t ≠ block := by
      rintro rfl
      exact hidden hmem
    rw [Function.update_of_ne hne] at ht
    rcases sound.complete t hmem ht with done | ⟨c', q, h', hb, hw⟩
    · exact .inl done
    · have hc : c' ≠ c := by
        rintro rfl
        obtain rfl : q = .allocThreadInfo := Option.some.inj (h'.symm.trans h)
        cases hw
      exact .inr ⟨c', q, (create_goto_of_ne hc).trans h', hb, hw⟩

/-- `STAILQ_INSERT_TAIL` brings the new thread to the scheduler, in the window of the
running thread's call. -/
theorem Sound.published (sound : s.Sound) {ti : ThreadId} (runs : s.running = some c)
    (h : s.create c = some (.insertTail ti)) :
    Sound ({ s with sched := { s.sched with ready := s.sched.ready ++ [ti] } }.goto c
      (.assignTid ti)) := by
  have hmem : ∀ t, t ∈ Sched.threads { s.sched with ready := s.sched.ready ++ [ti] } ↔
      t ∈ s.sched.threads ∨ t = ti := by
    intro t
    simp only [Sched.mem_threads, List.mem_append, List.mem_singleton]
    tauto
  obtain ⟨made, uncounted⟩ := sound.owned c _ ti h rfl
  have hblock : ∀ c' q t, (({ s with sched := { s.sched with ready := s.sched.ready ++ [ti] } } :
      Creation).goto c (.assignTid ti)).create c' = some q → q.block = some t →
      ∃ q', s.create c' = some q' ∧ q'.block = some t := by
    intro c' q t h' hb
    rcases create_goto_cases h' with ⟨rfl, rfl⟩ | ⟨_, h'⟩
    · exact ⟨_, h, hb⟩
    · exact ⟨q, h', hb⟩
  refine ⟨?_, ?_, ?_, ?_, ?_, ?_, ?_, ?_, ?_, ?_⟩
  · intro c' q h' hw
    rcases create_goto_cases h' with ⟨rfl, rfl⟩ | ⟨_, h'⟩
    · exact runs
    · exact sound.window c' q h' hw
  · intro c' q h'
    rcases create_goto_cases h' with ⟨rfl, rfl⟩ | ⟨_, h'⟩
    · exact sound.creator c' _ h
    · exact sound.creator c' q h'
  · intro c' q h'
    rcases create_goto_cases h' with ⟨rfl, rfl⟩ | ⟨_, h'⟩
    · exact .inr ((sound.initialised c' _ h).resolve_left (by simp))
    · exact sound.initialised c' q h'
  · intro c' q t h' hb
    obtain ⟨q', h', hb'⟩ := hblock c' q t h' hb
    exact sound.owned c' q' t h' hb'
  · intro c₁ q₁ c₂ q₂ t h₁ hb₁ h₂ hb₂
    obtain ⟨q₁', old₁, hb₁'⟩ := hblock c₁ q₁ t h₁ hb₁
    obtain ⟨q₂', old₂, hb₂'⟩ := hblock c₂ q₂ t h₂ hb₂
    exact sound.unique c₁ q₁' c₂ q₂' t old₁ hb₁' old₂ hb₂'
  · intro c' q t h' hb hw queued
    rcases create_goto_cases h' with ⟨rfl, rfl⟩ | ⟨hc, h'⟩
    · cases hw
    · rcases (hmem t).mp queued with old | rfl
      · exact sound.hidden c' q t h' hb hw old
      · exact hc (sound.unique c' q c _ t h' hb h rfl)
  · intro c' q t h' hb hw
    rcases create_goto_cases h' with ⟨rfl, rfl⟩ | ⟨_, h'⟩
    · obtain rfl : ti = t := Option.some.inj hb
      exact List.mem_append_right _ (List.mem_singleton_self ti)
    · exact List.mem_append_left _ (sound.queued c' q t h' hb hw)
  · intro c' q t h' hb ha
    rcases create_goto_cases h' with ⟨rfl, rfl⟩ | ⟨_, h'⟩
    · cases ha
    · exact sound.assigned c' q t h' hb ha
  · intro t ht
    obtain ⟨hidden, uncounted⟩ := sound.unknown t ht
    refine ⟨?_, uncounted⟩
    intro queued
    rcases (hmem t).mp queued with old | rfl
    · exact hidden old
    · cases made.symm.trans ht
  · intro t queued ht
    rcases (hmem t).mp queued with old | rfl
    · rcases sound.complete t old ht with done | ⟨c', q, h', hb, hw⟩
      · exact .inl done
      · have hc : c' ≠ c := by
          rintro rfl
          obtain rfl : q = .insertTail ti := Option.some.inj (h'.symm.trans h)
          cases hw
        exact .inr ⟨c', q, (create_goto_of_ne hc).trans h', hb, hw⟩
    · exact .inr ⟨c, _, create_goto_self _ c (.assignTid t), rfl, rfl⟩

theorem Sound.named (sound : s.Sound) (ti : ThreadId) (table : MutexTable)
    (tid : ThreadId → Nat) :
    Sound { s with
      sched := { s.sched with table := table, tid := tid }
      assigned := Function.update s.assigned ti true } := by
  have hset : ∀ t, s.assigned t = true → Function.update s.assigned ti true t = true := by
    intro t h
    by_cases ht : t = ti
    · simp [ht]
    · rw [Function.update_of_ne ht, h]
  refine ⟨sound.window, sound.creator, sound.initialised, sound.owned, sound.unique,
    sound.hidden, sound.queued, ?_, sound.unknown, ?_⟩
  · exact fun c p t h hb ha => hset t (sound.assigned c p t h hb ha)
  · intro t queued ht
    rcases sound.complete t queued ht with done | calls
    · exact .inl ⟨hset t done.1, done.2⟩
    · exact .inr calls

/-- The last write: the thread is complete and its creation is over. -/
theorem Sound.finished (sound : s.Sound) {ti : ThreadId} {thread : Nat}
    (h : s.create c = some (.setCount ti thread)) (table : MutexTable) :
    Sound { s with
      sched := { s.sched with table := table }
      counted := Function.update s.counted ti true
      create := Function.update s.create c none } := by
  have hold : ∀ {c' q}, Function.update s.create c none c' = some q →
      c' ≠ c ∧ s.create c' = some q := by
    intro c' q h'
    by_cases hc : c' = c
    · subst hc
      simp at h'
    · exact ⟨hc, (Function.update_of_ne hc _ _).symm.trans h'⟩
  have hne : ∀ {c' q t}, c' ≠ c → s.create c' = some q → q.block = some t → t ≠ ti := by
    rintro c' q t hc h' hb rfl
    exact hc (sound.unique c' q c _ t h' hb h rfl)
  obtain ⟨made, uncounted⟩ := sound.owned c _ ti h rfl
  refine ⟨?_, ?_, ?_, ?_, ?_, ?_, ?_, ?_, ?_, ?_⟩
  · exact fun c' q h' hw => sound.window c' q (hold h').2 hw
  · exact fun c' q h' => sound.creator c' q (hold h').2
  · exact fun c' q h' => sound.initialised c' q (hold h').2
  · intro c' q t h' hb
    obtain ⟨hc, h'⟩ := hold h'
    have owned := sound.owned c' q t h' hb
    exact ⟨owned.1, (Function.update_of_ne (hne hc h' hb) _ _).trans owned.2⟩
  · exact fun c₁ q₁ c₂ q₂ t h₁ hb₁ h₂ hb₂ =>
      sound.unique c₁ q₁ c₂ q₂ t (hold h₁).2 hb₁ (hold h₂).2 hb₂
  · exact fun c' q t h' hb hw => sound.hidden c' q t (hold h').2 hb hw
  · exact fun c' q t h' hb hw => sound.queued c' q t (hold h').2 hb hw
  · exact fun c' q t h' hb ha => sound.assigned c' q t (hold h').2 hb ha
  · intro t ht
    have hti : t ≠ ti := by
      rintro rfl
      cases made.symm.trans ht
    exact ⟨(sound.unknown t ht).1,
      (Function.update_of_ne hti _ _).trans (sound.unknown t ht).2⟩
  · intro t queued ht
    by_cases hti : t = ti
    · subst hti
      exact .inl ⟨sound.assigned c _ t h rfl rfl, Function.update_self ..⟩
    · rcases sound.complete t queued ht with done | ⟨c', q, h', hb, hw⟩
      · exact .inl ⟨done.1, (Function.update_of_ne hti _ _).trans done.2⟩
      · have hc : c' ≠ c := by
          rintro rfl
          obtain rfl : q = .setCount ti thread := Option.some.inj (h'.symm.trans h)
          exact hti (Option.some.inj hb).symm
        exact .inr ⟨c', q, (Function.update_of_ne hc _ _).trans h', hb, hw⟩

theorem running_pthreadInit (s : Creation) : s.pthreadInit.running = s.running := by
  unfold pthreadInit
  split
  · rfl
  · rename_i uninit
    simp [running, uninit]

/-- `my_pthread_init` brings the main thread to the scheduler; the only calls so far are
at their first statement. -/
theorem Sound.pthreadInit (sound : s.Sound) (runs : s.running = some c)
    (h : s.create c = some p) : s.pthreadInit.Sound := by
  have hrunning := running_pthreadInit s
  unfold Creation.pthreadInit at hrunning ⊢
  split at hrunning
  · rename_i init
    rw [if_pos init]
    exact sound
  · rename_i uninit
    rw [if_neg uninit]
    have hfirst : ∀ c' q, s.create c' = some q → q = .init := fun c' q h' =>
      (sound.initialised c' q h').resolve_right uninit
    have hmain : s.main = c := by simpa [running, uninit] using runs
    have hmem : ∀ t, t ∈ Sched.threads { s.sched with current := some s.main } →
        t = c ∨ t ∈ s.sched.threads := by
      intro t ht
      simp only [Sched.mem_threads, Option.some.injEq, hmain] at ht ⊢
      tauto
    have hstarted := sound.creator c p h
    refine ⟨?_, sound.creator, fun _ _ _ => .inr rfl, sound.owned, sound.unique, ?_, sound.queued,
      sound.assigned, ?_, ?_⟩
    · exact fun c' q h' hw => hrunning.trans (sound.window c' q h' hw)
    · intro c' q ti h' hb
      rw [hfirst c' q h'] at hb
      cases hb
    · intro t ht
      obtain ⟨hidden, uncounted⟩ := sound.unknown t ht
      refine ⟨?_, uncounted⟩
      intro queued
      rcases hmem t queued with rfl | old
      · cases hstarted.symm.trans ht
      · exact hidden old
    · intro t queued ht
      rcases hmem t queued with rfl | old
      · cases hstarted.symm.trans ht
      · exact sound.complete t old ht

/-- One statement of the running thread's call. -/
theorem Sound.execute (sound : s.Sound) (runs : s.running = some c) (h : s.create c = some p)
    (step : s.execute c block tid mu p = some s') : s'.Sound := by
  have started := sound.creator c p h
  -- a statement that only moves on, with the same block and on the same side of the window
  have moves : ∀ q : Statement, q.block = p.block → q.inWindow = p.inWindow →
      (∀ ti, p.block = some ti → q.behindTid = true → p.behindTid = true ∨ s.assigned ti = true) →
      p ≠ .init → (s.goto c q).Sound := by
    intro q hb hw ha hinit
    refine sound.goto runs started (.inr ((sound.initialised c p h).resolve_left hinit)) ?_ ?_
    · exact fun ti hq => ⟨p, h, hb.symm.trans hq, hw.symm, ha ti (hb.symm.trans hq)⟩
    · intro p' h' hw'
      obtain rfl : p = p' := Option.some.inj (h.symm.trans h')
      exact ⟨hw.trans hw', hb⟩
  cases p with
  | init =>
      cases step
      have init := sound.pthreadInit runs h
      have hcreate : s.pthreadInit.create = s.create := by
        unfold Creation.pthreadInit
        split <;> rfl
      have hinit : s.pthreadInit.gPthreadInit = true := by
        unfold Creation.pthreadInit
        split
        · assumption
        · rfl
      refine init.goto ((running_pthreadInit s).trans runs) (init.creator c .init ?_) (.inr hinit)
        (fun ti hb => by cases hb) ?_
      · rw [hcreate, h]
      · intro p' h' hw
        rw [hcreate, h] at h'
        cases h'
        cases hw
  | allocThreadInfo =>
      simp only [Creation.execute] at step
      split at step
      · rename_i fresh
        cases step
        exact sound.allocated h fresh rfl rfl rfl
      · cases step
  | countThread ti =>
      cases step
      have next := moves (.getcontext ti) rfl rfl (fun _ _ ha => by cases ha) (by simp)
      exact ⟨next.window, next.creator, next.initialised, next.owned, next.unique, next.hidden,
        next.queued, next.assigned, next.unknown, next.complete⟩
  | getcontext ti =>
      cases step
      exact moves (.setStack ti) rfl rfl (fun _ _ ha => by cases ha) (by simp)
  | setStack ti =>
      cases step
      exact moves (.setStackSize ti) rfl rfl (fun _ _ ha => by cases ha) (by simp)
  | setStackSize ti =>
      cases step
      exact moves (.setLink ti) rfl rfl (fun _ _ ha => by cases ha) (by simp)
  | setLink ti =>
      cases step
      exact moves (.makecontext ti) rfl rfl (fun _ _ ha => by cases ha) (by simp)
  | makecontext ti =>
      cases step
      exact moves (.insertTail ti) rfl rfl (fun _ _ ha => by cases ha) (by simp)
  | insertTail ti =>
      cases step
      exact sound.published runs h
  | assignTid ti =>
      cases step
      have named := sound.named ti s.sched.table.allocMutex.1 (Function.update s.sched.tid ti
        (s.sched.table.allocMutex.2.getD (2 ^ 32 - 1)))
      refine named.goto runs started
        (.inr ((sound.initialised c _ h).resolve_left (by simp))) ?_ ?_
      · intro t hb
        obtain rfl : ti = t := Option.some.inj hb
        exact ⟨_, h, rfl, rfl, fun _ => .inr (Function.update_self ..)⟩
      · intro p' h' hw
        obtain rfl : Statement.assignTid ti = p' := Option.some.inj (h.symm.trans h')
        exact ⟨rfl, rfl⟩
  | storeHandle ti =>
      cases step
      exact moves (.setCount ti (s.sched.tid ti)) rfl rfl (fun _ _ _ => .inl rfl) (by simp)
  | setCount ti thread =>
      simp only [Creation.execute] at step
      split at step
      · cases step
        exact sound.finished h (s.sched.table.setCount thread 1)
      · cases step

/-- What is under creation is neither `CURRENT` nor the caller of a call. -/
theorem Sound.not_owned_current (sound : s.Sound) (current : s.sched.current = some t)
    (made : s.life t = .made) (h : s.create c = some p) : p.block ≠ some t := by
  intro hb
  cases hw : p.inWindow with
  | false =>
      have hidden := sound.hidden c p t h hb hw
      exact hidden (Sched.mem_threads.mpr (.inl current))
  | true =>
      have init : s.gPthreadInit = true := by
        refine (sound.initialised c p h).resolve_left ?_
        rintro rfl
        cases hb
      have runs := sound.window c p h hw
      rw [running, if_pos init, current] at runs
      cases runs
      cases (sound.creator c p h).symm.trans made

/-- A call by a thread that is not in `my_pthread_create`. -/
theorem Sound.call (sound : s.Sound) (runs : s.running = some c) (started : s.life c = .started)
    (idle : s.create c = none) {e : Pthread.Event} (step : s.call c e = some s') : s'.Sound := by
  have outside : ¬ s.InWindow := by
    rintro ⟨c', p, runs', h, -⟩
    cases runs.symm.trans runs'
    rw [idle] at h
    cases h
  have others : ∀ {e : Pthread.Event}, (∀ ti, e ≠ .create ti) →
      ((s.sched.call e).toOption.map fun r => { s with sched := r.1 }) = some s' → s'.Sound := by
    intro e hother hstep
    obtain ⟨result, returned, rfl⟩ := Option.map_eq_some_iff.mp hstep
    have hcall := Outcome.toOption_eq_some_iff.mp returned
    exact sound.switched outside fun t => Sched.mem_threads_call hother hcall
  cases e with
  | create ti => cases step
  | tick => cases step
  | exit =>
      obtain ⟨result, returned, rfl⟩ := Option.map_eq_some_iff.mp step
      have hexit := Outcome.toOption_eq_some_iff.mp returned
      have switched := sound.switched outside fun t => Sched.mem_threads_exit hexit
      refine switched.lives (.inr rfl) (fun _ => idle) ?_
      intro c' p h hb
      cases (sound.owned c' p c h hb).1.symm.trans started
  | yield => exact @others .yield (by simp) step
  | join n => exact @others (.join n) (by simp) step
  | mutexInit => exact @others .mutexInit (by simp) step
  | lock n => exact @others (.lock n) (by simp) step
  | unlock n => exact @others (.unlock n) (by simp) step
  | destroy n => exact @others (.destroy n) (by simp) step

theorem Sound.step {e : Event} (sound : s.Sound) (undisturbed : s.Undisturbed e)
    (step : s.Step e s') : s'.Sound := by
  rw [Step] at step
  cases e with
  | tick =>
      obtain ⟨-, step⟩ := Option.ite_none_right_eq_some.mp step
      obtain rfl := Option.some.inj step
      exact sound.switched undisturbed fun t => Sched.mem_threads_schedule.mp
  | begin =>
      obtain ⟨t, current, step⟩ := Option.bind_eq_some_iff.mp step
      obtain ⟨made, step⟩ := Option.ite_none_right_eq_some.mp step
      obtain rfl := Option.some.inj step
      refine sound.lives (.inl rfl) (fun exits => nomatch exits) ?_
      exact fun c p h => sound.not_owned_current current made h
  | enter =>
      obtain ⟨c, runs, step⟩ := Option.bind_eq_some_iff.mp step
      obtain ⟨⟨started, idle⟩, step⟩ := Option.ite_none_right_eq_some.mp step
      obtain rfl := Option.some.inj step
      refine sound.goto runs started (.inl rfl) (fun ti hb => nomatch hb) ?_
      intro p h
      rw [idle] at h
      cases h
  | statement block tid mu =>
      obtain ⟨c, runs, step⟩ := Option.bind_eq_some_iff.mp step
      obtain ⟨p, h, step⟩ := Option.bind_eq_some_iff.mp step
      exact sound.execute runs h step
  | call e =>
      obtain ⟨c, runs, step⟩ := Option.bind_eq_some_iff.mp step
      obtain ⟨⟨started, idle⟩, step⟩ := Option.ite_none_right_eq_some.mp step
      exact sound.call runs started idle step

theorem Sound.safe {e : Event} (sound : s.Sound) (step : s.Step e s') : s.Safe e := by
  cases e with
  | begin =>
      intro t current
      obtain ⟨t', current', step⟩ := Option.bind_eq_some_iff.mp step
      obtain ⟨made, -⟩ := Option.ite_none_right_eq_some.mp step
      cases current.symm.trans current'
      have hmem : t ∈ s.sched.threads := Sched.mem_threads.mpr (.inl current)
      rcases sound.complete t hmem made with done | ⟨c, p, h, hb, -⟩
      · exact done
      · exact absurd hb (sound.not_owned_current current made h)
  | statement block tid mu =>
      intro c p ti _ h hb exited
      cases (sound.owned c p ti h hb).1.symm.trans exited
  | tick | enter | call e => trivial

/-! The other direction: the queue is first in, first out, so that the new thread comes
before its creator. -/

/-- The timer alone brings every ready thread to the processor. -/
theorem exists_ticks (init : s.gPthreadInit = true) {before after : List ThreadId}
    (ready : s.sched.ready = before ++ t :: after) :
    ∃ es s', Steps (fun _ e => e = .tick) Step s es s' ∧ s'.sched.current = some t ∧
      s'.life = s.life ∧ s'.counted = s.counted := by
  induction before generalizing s after with
  | nil =>
      have step : s.Step .tick { s with sched := s.sched.schedule } := by
        rw [Step, next, if_pos init]
      refine ⟨_, _, .single rfl step, ?_, rfl, rfl⟩
      simp [Sched.schedule, ready]
  | cons first before ih =>
      have step : s.Step .tick { s with sched := s.sched.schedule } := by
        rw [Step, next, if_pos init]
      have ready' : s.sched.schedule.ready = before ++ t :: (after ++ s.sched.current.toList) := by
        simp [Sched.schedule, ready]
      obtain ⟨es, s', run, current, life, counted⟩ :=
        ih (s := { s with sched := s.sched.schedule }) init ready'
      exact ⟨_, s', .cons rfl step run, current, life, counted⟩

theorem Sound.starts_early (sound : s.Sound) (inWindow : s.InWindow) :
    ∃ es s' s'', Steps (fun _ e => e = .tick) Step s es s' ∧ s'.Step .begin s'' ∧
      ¬ s'.Safe .begin := by
  obtain ⟨c, p, -, h, hw⟩ := inWindow
  have hblock : ∃ ti, p.block = some ti := by
    cases p <;> first | exact ⟨_, rfl⟩ | cases hw
  obtain ⟨ti, hb⟩ := hblock
  have init : s.gPthreadInit = true := by
    refine (sound.initialised c p h).resolve_left ?_
    rintro rfl
    cases hb
  obtain ⟨made, uncounted⟩ := sound.owned c p ti h hb
  obtain ⟨before, after, ready⟩ := List.append_of_mem (sound.queued c p ti h hb hw)
  obtain ⟨es, s', run, current, life, counted⟩ := exists_ticks init ready
  have step : s'.Step .begin { s' with life := Function.update s'.life ti .started } := by
    rw [Step, next, current, Option.bind_some, if_pos (by rw [life, made])]
  refine ⟨es, s', _, run, step, ?_⟩
  intro safe
  have done := (safe ti current).2
  rw [counted, uncounted] at done
  cases done

/-- The states that the calls of all threads lead to from process start. -/
abbrev Reached (allowed : Creation → Event → Prop) : Creation → Prop :=
  Reachable Init allowed Step

/-- While no timer comes between the insertion of a thread in the ready queue and the
write of its count, threads start complete and creation writes to no exited thread; a
timer there lets a thread start before its `tid` and count are written. -/
theorem published_when_complete (reached : Reached Undisturbed s) :
    (∀ e s', s.Step e s' → s.Safe e) ∧
      (s.InWindow → ∃ es s' s'', Steps (fun _ e => e = .tick) Step s es s' ∧
        s'.Step .begin s'' ∧ ¬ s'.Safe .begin) := by
  have sound : s.Sound := by
    refine reached.invariant Sound ?_ fun _ _ _ undisturbed step sound =>
      sound.step undisturbed step
    rintro s ⟨main, tid, mu, rfl⟩
    exact start_sound main tid mu
  exact ⟨fun e s' step => sound.safe step, sound.starts_early⟩

instance (s : Creation) : Decidable s.InWindow :=
  decidable_of_iff ((s.running.bind s.create).any Statement.inWindow = true) (by
    rw [Option.any_eq_true]
    constructor
    · rintro ⟨p, h, hw⟩
      obtain ⟨c, runs, h⟩ := Option.bind_eq_some_iff.mp h
      exact ⟨c, p, runs, h, hw⟩
    · rintro ⟨c, p, runs, h, hw⟩
      exact ⟨p, Option.bind_eq_some_iff.mpr ⟨c, runs, h⟩, hw⟩)

instance (s : Creation) : DecidablePred s.Undisturbed
  | .tick => inferInstanceAs (Decidable (¬ s.InWindow))
  | .begin | .enter | .statement _ _ _ | .call _ => inferInstanceAs (Decidable True)

/-- Thread 1 is created and comes to the processor. -/
theorem published_when_complete_created :
    ∃ s s', Reached Undisturbed s ∧ s.sched.current = some 1 ∧ s.Step .begin s' ∧ s.Complete 1 := by
  have start : Init (start 0 (fun _ => 7) (fun _ => 9)) := ⟨0, fun _ => 7, fun _ => 9, rfl⟩
  obtain ⟨s, reached, current, made⟩ := exists_reachable_of_run Undisturbed next start
    (fun s => s.sched.current = some 1 ∧ s.life 1 = .made)
    (.enter :: List.replicate 12 (.statement 1 7 9) ++ [.tick]) (by decide +kernel)
  have step : s.Step .begin { s with life := Function.update s.life 1 .started } := by
    rw [Step, next, current, Option.bind_some, if_pos made]
  exact ⟨s, _, reached, current, step, (published_when_complete reached).1 .begin _ step 1 current⟩

/-- The timer comes right behind `STAILQ_INSERT_TAIL`: thread 1 starts with no `tid`, and
when it has exited its creator writes the `tid` to its block. -/
theorem thread_starts_unpublished :
    (∃ s s', Reached (fun _ _ => True) s ∧ s.Step .begin s' ∧ ¬ s.Safe .begin) ∧
      ∃ s s', Reached (fun _ _ => True) s ∧ s.Step (.statement 0 0 0) s' ∧
        ¬ s.Safe (.statement 0 0 0) := by
  have start : Init (start 0 (fun _ => 7) (fun _ => 9)) := ⟨0, fun _ => 7, fun _ => 9, rfl⟩
  constructor
  · obtain ⟨s, reached, current, made, unassigned⟩ := exists_reachable_of_run (fun _ _ => True) next
      start (fun s => s.sched.current = some 1 ∧ s.life 1 = .made ∧ s.assigned 1 = false)
      (.enter :: List.replicate 9 (.statement 1 7 9) ++ [.tick]) (by decide +kernel)
    refine ⟨s, { s with life := Function.update s.life 1 .started }, reached, ?_, ?_⟩
    · rw [Step, next, current, Option.bind_some, if_pos made]
    · intro safe
      have assigned := (safe 1 current).1
      rw [unassigned] at assigned
      cases assigned
  · obtain ⟨s, reached, runs, creates, exited⟩ := exists_reachable_of_run (fun _ _ => True) next
      start (fun s => s.running = some 0 ∧ s.create 0 = some (.assignTid 1) ∧ s.life 1 = .exited)
      (.enter :: List.replicate 9 (.statement 1 7 9) ++ [.tick, .begin, .call .exit])
      (by decide +kernel)
    have step : ∃ s', s.Step (.statement 0 0 0) s' := by
      simp only [Step, next, runs, Option.bind_some, creates, execute]
      exact ⟨_, rfl⟩
    obtain ⟨s', step⟩ := step
    refine ⟨s, s', reached, step, ?_⟩
    intro safe
    exact safe 0 _ 1 runs creates rfl exited

end Creation

end OsDesign.Code
