import Mathlib.Data.List.Basic

/-- A queue whose first entry is being written: `n` writes are outstanding. While `live`, an entry
that is written is followed by the next one. `queued` and `sent` are the entries that have entered
the queue, and those whose write was started, from the beginning. -/
structure SerialWriter {α : Type*} (live : Prop) (queue : List α) (n : ℕ) (queued sent : List α) :
    Prop where
  one : n ≤ 1
  idle : queue = [] → n = 0
  busy : live → queue ≠ [] → n = 1
  order : ∃ done, queued = done ++ queue ∧ sent = done ++ queue.take 1

namespace SerialWriter

variable {α : Type*} {live live' : Prop} {queue rest queued sent : List α} {n : ℕ} {x : α}

theorem empty (live : Prop) : SerialWriter live ([] : List α) 0 [] [] :=
  ⟨Nat.zero_le 1, fun _ => rfl, fun _ hne => absurd rfl hne, [], rfl, rfl⟩

/-- An entry enters the empty queue, and its write is started. -/
theorem first (h : SerialWriter live [] n queued sent) (x : α) :
    SerialWriter live [x] (n + 1) (queued ++ [x]) (sent ++ [x]) := by
  have hzero := h.idle rfl
  obtain ⟨done, hqueued, hsent⟩ := h.order
  refine ⟨by omega, by simp, fun _ _ => by omega, done, ?_, ?_⟩
  · rw [hqueued, List.append_nil]
  · rw [hsent, List.take_nil, List.append_nil]
    rfl

/-- An entry enters behind others. -/
theorem behind (h : SerialWriter live queue n queued sent) (hne : queue ≠ []) (x : α) :
    SerialWriter live (queue ++ [x]) n (queued ++ [x]) sent := by
  obtain ⟨done, hqueued, hsent⟩ := h.order
  obtain ⟨y, ys, rfl⟩ := List.exists_cons_of_ne_nil hne
  refine ⟨h.one, by simp, fun hl _ => h.busy hl hne, done, ?_, hsent⟩
  rw [hqueued, List.append_assoc]

/-- A write ends and the next one is started. -/
theorem next (h : SerialWriter live queue (n + 1) queued sent) (htail : queue.tail = x :: rest) :
    SerialWriter live (x :: rest) (n + 1) queued (sent ++ [x]) := by
  obtain ⟨done, hqueued, hsent⟩ := h.order
  cases queue with
  | nil => cases htail
  | cons y ys =>
    rw [List.tail_cons] at htail
    subst htail
    refine ⟨h.one, by simp, fun hl _ => h.busy hl (by simp), done ++ [y], ?_, ?_⟩
    · rw [hqueued, List.append_assoc]
      rfl
    · rw [hsent]
      simp

/-- The last write ends. -/
theorem last (h : SerialWriter live queue (n + 1) queued sent) (htail : queue.tail = []) :
    SerialWriter live [] n queued sent := by
  have hone := h.one
  obtain ⟨done, hqueued, hsent⟩ := h.order
  cases queue with
  | nil =>
    have hzero := h.idle rfl
    omega
  | cons y ys =>
    rw [List.tail_cons] at htail
    subst htail
    refine ⟨by omega, fun _ => by omega, fun _ hne => absurd rfl hne, done ++ [y], ?_, ?_⟩
    · rw [hqueued, List.append_nil]
    · rw [hsent]
      simp

/-- A write fails, and no other one follows. -/
theorem fail {d : ℕ} (h : SerialWriter live queue (n + d) queued sent) (hdead : ¬ live') :
    SerialWriter live' queue n queued sent := by
  have hone := h.one
  refine ⟨by omega, fun hnil => ?_, fun hl => absurd hl hdead, h.order⟩
  have hzero := h.idle hnil
  omega

theorem mono (h : SerialWriter live queue n queued sent) (hlive : live' → live) :
    SerialWriter live' queue n queued sent :=
  ⟨h.one, h.idle, fun hl => h.busy (hlive hl), h.order⟩

theorem busy_iff (h : SerialWriter live queue n queued sent) (hl : live) : n = 1 ↔ queue ≠ [] := by
  refine ⟨fun hone hnil => ?_, h.busy hl⟩
  rw [h.idle hnil] at hone
  cases hone

end SerialWriter
