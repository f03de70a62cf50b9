import AikoIsland.SoloRun

/-!
# Requests served one after the other

Each request runs in a session of its own, from the store that the one before it
left. What every session keeps, the whole sequence keeps; and what holds after
each of them is read off its run alone.
-/
namespace AikoIsland.WriterLock

variable {σ μ τ ε α β : Type}

theorem Point.eq_mk_of_none {x : Point σ μ} (h : x.work = none) : x = ⟨x.db, x.mem, none⟩ := by
  cases x
  simp only at h
  rw [h]

theorem Point.wrote_view (n : Bool) (s : σ) (x : Point σ μ) : (x.wrote n s).view = s := by
  unfold wrote
  split_ifs with hopen
  · rw [Bool.and_eq_true, Option.isNone_iff_eq_none] at hopen
    exact view_of_none hopen.2
  · rfl

namespace Request

/-- The points after the requests, served in this order. -/
def serveAll (rs : List (Request σ μ τ ε α)) (x : Point σ μ) : Point σ μ :=
  rs.foldl (fun x r => (r.session.run x).2) x

theorem serveAll_append (rs rs' : List (Request σ μ τ ε α)) (x : Point σ μ) :
    serveAll (rs ++ rs') x = serveAll rs' (serveAll rs x) := by
  simp only [serveAll, List.foldl_append]

theorem work_session (r : Request σ μ τ ε α) (x : Point σ μ) :
    (r.session.run x).2.work = none := by
  rw [run_session]
  rfl

theorem work_serveAll (rs : List (Request σ μ τ ε α)) {x : Point σ μ} (h : x.work = none) :
    (serveAll rs x).work = none := by
  induction rs generalizing x with
  | nil => exact h
  | cons r rs ih => exact ih (work_session r x)

/-- What each request of the sequence keeps holds at its end. -/
theorem serveAll_keeps {P : Point σ μ → Prop} {rs : List (Request σ μ τ ε α)} {x : Point σ μ}
    (hx : x.work = none) (h : P x)
    (hstep : ∀ r ∈ rs, ∀ y : Point σ μ, y.work = none → P y → P (r.session.run y).2) :
    P (serveAll rs x) := by
  induction rs generalizing x with
  | nil => exact h
  | cons r rs ih =>
      apply ih (work_session r x) (hstep r List.mem_cons_self x hx h)
      intro r' hr'
      exact hstep r' (List.mem_cons_of_mem r hr')

/-- A request that left the point alone does so in a session too. -/
theorem run_session_same {r : Request σ μ τ ε α} {x : Point σ μ} {result : Except ε α}
    (hx : x.work = none) (h : r.run x = (result, x)) : r.session.run x = (result, x) := by
  rw [run_session, h, Point.eq_mk_of_none hx]
  rfl

end Request

end AikoIsland.WriterLock
