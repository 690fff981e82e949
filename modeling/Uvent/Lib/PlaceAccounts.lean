import Uvent.Lib.PlaceLog

/-!
# The accounts of what is sent through queues

Parties make calls one after another; in a call a party may put one element into one queue,
or be given one.  An element knows who sends it, and in which of its calls.
-/

namespace Uvent.Lib

variable {C T A : Type}

/-- The queues, and what the calls have come to.  `sending` are the elements that have a
place while the call that sends them goes on. -/
structure Accounts (C T A : Type) where
  places : C → PlaceLog T A
  sending : C → A → Prop
  sent : C → A → Prop
  received : C → T → Nat → A → Prop

namespace Accounts

variable (sender : A → T) (call : A → Nat)

def SameCall (v v' : A) : Prop := sender v = sender v' ∧ call v = call v'

inductive Step (L L' : Accounts C T A) : Prop where
  | quiet (hplaces : L'.places = L.places) (hsending : ∀ c v, L'.sending c v ↔ L.sending c v)
      (hsent : ∀ c v, L'.sent c v ↔ L.sent c v)
      (hreceived : ∀ c t n v, L'.received c t n v ↔ L.received c t n v)
  | puts (c : C) (x : Nat) (v : A) (hsound : (L'.places c).Sound)
      (hlast : ∀ y, (L.places c).put y ≠ none → y < x)
      (hfresh : ∀ d v', L.sending d v' ∨ L.sent d v' → sender v' = sender v → call v' < call v)
      (hself : L'.places c = (L.places c).setPut x (sender v) v)
      (hother : ∀ d, d ≠ c → L'.places d = L.places d)
      (hsending : ∀ d v', L'.sending d v' ↔ L.sending d v' ∨ d = c ∧ v' = v)
      (hsent : ∀ c v, L'.sent c v ↔ L.sent c v)
      (hreceived : ∀ c t n v, L'.received c t n v ↔ L.received c t n v)
  | sends (c : C) (v : A) (hplaces : L'.places = L.places) (hold : L.sending c v)
      (hsending : ∀ d v', L'.sending d v' ↔ L.sending d v' ∧ ¬(d = c ∧ v' = v))
      (hsent : ∀ d v', L'.sent d v' ↔ L.sent d v' ∨ d = c ∧ v' = v)
      (hreceived : ∀ c t n v, L'.received c t n v ↔ L.received c t n v)
  | claims (c : C) (x : Nat) (t : T) (hsound : (L'.places c).Sound)
      (hfree : (L.places c).taker x = none)
      (hself : L'.places c = (L.places c).setTaker x t)
      (hother : ∀ d, d ≠ c → L'.places d = L.places d)
      (hsending : ∀ c v, L'.sending c v ↔ L.sending c v)
      (hsent : ∀ c v, L'.sent c v ↔ L.sent c v)
      (hreceived : ∀ c t n v, L'.received c t n v ↔ L.received c t n v)
  | gives (c : C) (x : Nat) (t : T) (n : Nat) (v : A) (hsound : (L'.places c).Sound)
      (hput : ∃ p, (L.places c).put x = some (p, v)) (htaker : (L.places c).taker x = some t)
      (hkept : (L.places c).given x = none) (hfresh : ∀ m v', L.received c t m v' → m < n)
      (hrest : ∀ y, y ≠ x → (L.places c).put y ≠ none → (L.places c).taker y = some t →
        (L.places c).given y ≠ none)
      (hself : L'.places c = (L.places c).setGiven x t)
      (hother : ∀ d, d ≠ c → L'.places d = L.places d)
      (hsending : ∀ c v, L'.sending c v ↔ L.sending c v)
      (hsent : ∀ c v, L'.sent c v ↔ L.sent c v)
      (hreceived : ∀ d u m v', L'.received d u m v' ↔
        L.received d u m v' ∨ (d = c ∧ u = t ∧ m = n ∧ v' = v))

structure Balanced (L : Accounts C T A) : Prop where
  sound : ∀ c, (L.places c).Sound
  owner : ∀ c x p v, (L.places c).put x = some (p, v) →
    p = sender v ∧ (L.sending c v ∨ L.sent c v)
  placed : ∀ c v, L.sending c v ∨ L.sent c v → ∃ x, (L.places c).put x = some (sender v, v)
  unique : ∀ c d x y p q v v', (L.places c).put x = some (p, v) →
    (L.places d).put y = some (q, v') → SameCall sender call v v' → c = d ∧ x = y
  ordered : ∀ c x y p q v v', (L.places c).put x = some (p, v) →
    (L.places c).put y = some (q, v') → sender v = sender v' → call v < call v' → x < y
  given : ∀ c x p v t, (L.places c).put x = some (p, v) → (L.places c).given x = some t →
    ∃ n, L.received c t n v
  received : ∀ c t n v, L.received c t n v →
    ∃ x p, (L.places c).put x = some (p, v) ∧ (L.places c).given x = some t
  once : ∀ c t u n m v, L.received c t n v → L.received c u m v → t = u ∧ n = m
  earlier : ∀ c x y t, x < y → (L.places c).put x ≠ none → (L.places c).taker x = some t →
    (L.places c).given y = some t → (L.places c).given x ≠ none
  turns : ∀ c x y p q t n m v v', (L.places c).put x = some (p, v) →
    (L.places c).put y = some (q, v') → L.received c t n v → L.received c t m v' → x < y → n < m

variable {sender call}

theorem balanced_of_empty {L : Accounts C T A} (hplaces : ∀ c, L.places c = .new)
    (hsending : ∀ c v, ¬L.sending c v) (hsent : ∀ c v, ¬L.sent c v)
    (hreceived : ∀ c t n v, ¬L.received c t n v) : L.Balanced sender call := by
  have hput : ∀ c x, (L.places c).put x = none := fun c x => by
    rw [hplaces]
    rfl
  constructor
  case sound =>
    intro c
    rw [hplaces]
    exact PlaceLog.sound_new
  case owner => exact fun c x p v h => by cases (hput c x).symm.trans h
  case placed => exact fun c v h => (h.elim (hsending c v) (hsent c v)).elim
  case unique => exact fun c d x y p q v v' h => by cases (hput c x).symm.trans h
  case ordered => exact fun c x y p q v v' h => by cases (hput c x).symm.trans h
  case given => exact fun c x p v t h => by cases (hput c x).symm.trans h
  case received => exact fun c t n v h => (hreceived c t n v h).elim
  case once => exact fun c t u n m v h => (hreceived c t n v h).elim
  case earlier => exact fun c x y t _ h => absurd (hput c x) h
  case turns => exact fun c x y p q t n m v v' h => by cases (hput c x).symm.trans h

namespace Balanced

variable {L L' : Accounts C T A}

theorem sound_of (h : L.Balanced sender call) {c : C} (hself : (L'.places c).Sound)
    (hother : ∀ d, d ≠ c → L'.places d = L.places d) (d : C) : (L'.places d).Sound := by
  by_cases hd : d = c
  · rw [hd]
    exact hself
  · rw [hother d hd]
    exact h.sound d

theorem of_same (h : L.Balanced sender call) (hsound : ∀ c, (L'.places c).Sound)
    (hput : ∀ c, (L'.places c).put = (L.places c).put)
    (hgiven : ∀ c, (L'.places c).given = (L.places c).given)
    (hearlier : ∀ c x y t, x < y → (L'.places c).put x ≠ none → (L'.places c).taker x = some t →
      (L'.places c).given y = some t → (L'.places c).given x ≠ none)
    (hkept : ∀ c v, L'.sending c v ∨ L'.sent c v ↔ L.sending c v ∨ L.sent c v)
    (hreceived : ∀ c t n v, L'.received c t n v ↔ L.received c t n v) :
    L'.Balanced sender call := by
  constructor
  case sound => exact hsound
  case owner =>
    intro c x p v
    rw [hput, hkept]
    exact h.owner c x p v
  case placed =>
    intro c v
    rw [hput, hkept]
    exact h.placed c v
  case unique =>
    intro c d x y p q v v'
    rw [hput, hput]
    exact h.unique c d x y p q v v'
  case ordered =>
    intro c x y p q v v'
    rw [hput]
    exact h.ordered c x y p q v v'
  case given =>
    intro c x p v t hx hgave
    rw [hput] at hx
    rw [hgiven] at hgave
    obtain ⟨n, hn⟩ := h.given c x p v t hx hgave
    exact ⟨n, (hreceived ..).mpr hn⟩
  case received =>
    intro c t n v hreceive
    rw [hput, hgiven]
    exact h.received c t n v ((hreceived ..).mp hreceive)
  case once =>
    intro c t u n m v
    rw [hreceived, hreceived]
    exact h.once c t u n m v
  case earlier => exact hearlier
  case turns =>
    intro c x y p q t n m v v'
    rw [hput, hreceived, hreceived]
    exact h.turns c x y p q t n m v v'

theorem puts (h : L.Balanced sender call) {c : C} {x : Nat} {v : A}
    (hsound : (L'.places c).Sound) (hlast : ∀ y, (L.places c).put y ≠ none → y < x)
    (hfresh : ∀ d v', L.sending d v' ∨ L.sent d v' → sender v' = sender v → call v' < call v)
    (hself : L'.places c = (L.places c).setPut x (sender v) v)
    (hother : ∀ d, d ≠ c → L'.places d = L.places d)
    (hsending : ∀ d v', L'.sending d v' ↔ L.sending d v' ∨ d = c ∧ v' = v)
    (hsent : ∀ c v, L'.sent c v ↔ L.sent c v)
    (hreceived : ∀ c t n v, L'.received c t n v ↔ L.received c t n v) :
    L'.Balanced sender call := by
  have hnone : (L.places c).put x = none := by
    by_contra hne
    exact Nat.lt_irrefl x (hlast x hne)
  have hput : ∀ d y q v', (L'.places d).put y = some (q, v') ↔
      (L.places d).put y = some (q, v') ∨ d = c ∧ y = x ∧ q = sender v ∧ v' = v := by
    intro d y q v'
    by_cases hd : d = c
    · subst hd
      rw [hself]
      by_cases hy : y = x
      · subst hy
        rw [PlaceLog.setPut_self, hnone]
        simp [Prod.ext_iff, eq_comm]
      · rw [PlaceLog.setPut_of_ne _ _ _ _ hy, or_iff_left fun hx => hy hx.2.1]
    · rw [hother d hd, or_iff_left fun hx => hd hx.1]
  have htaker : ∀ d, (L'.places d).taker = (L.places d).taker ∧
      (L'.places d).given = (L.places d).given := by
    intro d
    by_cases hd : d = c
    · rw [hd, hself]
      exact ⟨rfl, rfl⟩
    · rw [hother d hd]
      exact ⟨rfl, rfl⟩
  -- an element of the same call would be an older one
  have hnew : ∀ d y q v', (L.places d).put y = some (q, v') → sender v' = sender v →
      call v' < call v := fun d y q v' hy => hfresh d v' (h.owner d y q v' hy).2
  have hbefore : ∀ y q v', (L.places c).put y = some (q, v') → y < x := fun y q v' hy =>
    hlast y (by rw [hy]; nofun)
  constructor
  case sound => exact h.sound_of hsound hother
  case owner =>
    intro d y q v' hy
    rw [hsending, hsent]
    obtain hy | ⟨rfl, rfl, rfl, rfl⟩ := (hput ..).mp hy
    · obtain ⟨hq, hstatus⟩ := h.owner d y q v' hy
      exact ⟨hq, hstatus.imp_left .inl⟩
    · exact ⟨rfl, .inl (.inr ⟨rfl, rfl⟩)⟩
  case placed =>
    intro d v' hstatus
    rw [hsending, hsent, or_assoc, or_left_comm] at hstatus
    obtain ⟨rfl, rfl⟩ | hstatus := hstatus
    · exact ⟨x, (hput ..).mpr (.inr ⟨rfl, rfl, rfl, rfl⟩)⟩
    · obtain ⟨y, hy⟩ := h.placed d v' hstatus
      exact ⟨y, (hput ..).mpr (.inl hy)⟩
  case unique =>
    intro d e y z q r v₁ v₂ hy hz hsame
    obtain hy | ⟨rfl, rfl, -, rfl⟩ := (hput ..).mp hy
    · obtain hz | ⟨rfl, rfl, -, rfl⟩ := (hput ..).mp hz
      · exact h.unique d e y z q r v₁ v₂ hy hz hsame
      · exact absurd hsame.2 (Nat.ne_of_lt (hnew d y q v₁ hy hsame.1))
    · obtain hz | ⟨rfl, rfl, -, rfl⟩ := (hput ..).mp hz
      · exact absurd hsame.2.symm (Nat.ne_of_lt (hnew e z r v₂ hz hsame.1.symm))
      · exact ⟨rfl, rfl⟩
  case ordered =>
    intro d y z q r v₁ v₂ hy hz hsender hcall
    obtain hy | ⟨rfl, rfl, -, rfl⟩ := (hput ..).mp hy
    · obtain hz | ⟨rfl, rfl, -, rfl⟩ := (hput ..).mp hz
      · exact h.ordered d y z q r v₁ v₂ hy hz hsender hcall
      · exact hbefore y q v₁ hy
    · obtain hz | ⟨-, -, -, rfl⟩ := (hput ..).mp hz
      · have := hnew d z r v₂ hz hsender.symm
        omega
      · omega
  case given =>
    intro d y q v' t hy hgiven
    rw [(htaker d).2] at hgiven
    obtain hy | ⟨rfl, rfl, -, -⟩ := (hput ..).mp hy
    · obtain ⟨n, hn⟩ := h.given d y q v' t hy hgiven
      exact ⟨n, (hreceived ..).mpr hn⟩
    · exact absurd hnone ((h.sound d).given y t hgiven).2
  case received =>
    intro d t n v' hreceive
    obtain ⟨y, q, hy, hgiven⟩ := h.received d t n v' ((hreceived ..).mp hreceive)
    refine ⟨y, q, (hput ..).mpr (.inl hy), ?_⟩
    rw [(htaker d).2]
    exact hgiven
  case once =>
    intro d t u n m v'
    rw [hreceived, hreceived]
    exact h.once d t u n m v'
  case earlier =>
    intro d y z t hlt hy htake hgiven
    rw [(htaker d).1] at htake
    rw [(htaker d).2] at hgiven ⊢
    obtain ⟨⟨q, v'⟩, hy⟩ := Option.ne_none_iff_exists'.mp hy
    obtain hy | ⟨rfl, rfl, -, -⟩ := (hput ..).mp hy
    · exact h.earlier d y z t hlt (by rw [hy]; nofun) htake hgiven
    · have := hlast z ((h.sound d).given z t hgiven).2
      omega
  case turns =>
    intro d y z q r t n m v₁ v₂ hy hz hn hm hlt
    have hn := (hreceived ..).mp hn
    have hm := (hreceived ..).mp hm
    -- what was received has another place
    have hold : ∀ {y q k v'}, (L'.places d).put y = some (q, v') → L.received d t k v' →
        (L.places d).put y = some (q, v') := by
      intro y q k v' hy hk
      obtain hy | ⟨rfl, rfl, -, rfl⟩ := (hput ..).mp hy
      · exact hy
      · obtain ⟨z, p, hz, -⟩ := h.received d t k v' hk
        exact absurd (hnew d z p v' hz rfl) (Nat.lt_irrefl _)
    exact h.turns d y z q r t n m v₁ v₂ (hold hy hn) (hold hz hm) hn hm hlt

theorem gives (h : L.Balanced sender call) {c : C} {x : Nat} {t : T} {n : Nat} {v : A}
    (hsound : (L'.places c).Sound) (hput : ∃ p, (L.places c).put x = some (p, v))
    (htaker : (L.places c).taker x = some t) (hkept : (L.places c).given x = none)
    (hfresh : ∀ m v', L.received c t m v' → m < n)
    (hrest : ∀ y, y ≠ x → (L.places c).put y ≠ none → (L.places c).taker y = some t →
      (L.places c).given y ≠ none)
    (hself : L'.places c = (L.places c).setGiven x t)
    (hother : ∀ d, d ≠ c → L'.places d = L.places d)
    (hsending : ∀ c v, L'.sending c v ↔ L.sending c v) (hsent : ∀ c v, L'.sent c v ↔ L.sent c v)
    (hreceived : ∀ d u m v', L'.received d u m v' ↔
      L.received d u m v' ∨ (d = c ∧ u = t ∧ m = n ∧ v' = v)) : L'.Balanced sender call := by
  obtain ⟨p, hput⟩ := hput
  have hplaces : ∀ d, (L'.places d).put = (L.places d).put ∧
      (L'.places d).taker = (L.places d).taker := by
    intro d
    by_cases hd : d = c
    · rw [hd, hself]
      exact ⟨rfl, rfl⟩
    · rw [hother d hd]
      exact ⟨rfl, rfl⟩
  have hgiven : ∀ d y u, (L'.places d).given y = some u ↔
      (L.places d).given y = some u ∨ d = c ∧ y = x ∧ u = t := by
    intro d y u
    by_cases hd : d = c
    · subst hd
      rw [hself]
      by_cases hy : y = x
      · subst hy
        rw [PlaceLog.setGiven_self, hkept]
        simp [eq_comm]
      · rw [PlaceLog.setGiven_of_ne _ _ _ hy, or_iff_left fun hx => hy hx.2.1]
    · rw [hother d hd, or_iff_left fun hx => hd hx.1]
  have hput' : ∀ d, (L'.places d).put = (L.places d).put := fun d => (hplaces d).1
  -- nobody has received the element
  have hnobody : ∀ u m, ¬L.received c u m v := by
    intro u m hreceive
    obtain ⟨y, q, hy, hgave⟩ := h.received c u m v hreceive
    obtain ⟨-, rfl⟩ := h.unique c c y x q p v v hy hput ⟨rfl, rfl⟩
    cases hkept.symm.trans hgave
  constructor
  case sound => exact h.sound_of hsound hother
  case owner =>
    intro d y q v'
    rw [hput', hsending, hsent]
    exact h.owner d y q v'
  case placed =>
    intro d v'
    rw [hput', hsending, hsent]
    exact h.placed d v'
  case unique =>
    intro d e y z q r v₁ v₂
    rw [hput', hput']
    exact h.unique d e y z q r v₁ v₂
  case ordered =>
    intro d y z q r v₁ v₂
    rw [hput']
    exact h.ordered d y z q r v₁ v₂
  case given =>
    intro d y q v' u hy hgave
    rw [hput'] at hy
    obtain hgave | ⟨rfl, rfl, rfl⟩ := (hgiven ..).mp hgave
    · obtain ⟨m, hm⟩ := h.given d y q v' u hy hgave
      exact ⟨m, (hreceived ..).mpr (.inl hm)⟩
    · cases hput.symm.trans hy
      exact ⟨n, (hreceived ..).mpr (.inr ⟨rfl, rfl, rfl, rfl⟩)⟩
  case received =>
    intro d u m v' hreceive
    obtain hreceive | ⟨rfl, rfl, rfl, rfl⟩ := (hreceived ..).mp hreceive
    · obtain ⟨y, q, hy, hgave⟩ := h.received d u m v' hreceive
      refine ⟨y, q, ?_, (hgiven ..).mpr (.inl hgave)⟩
      rw [hput']
      exact hy
    · refine ⟨x, p, ?_, (hgiven ..).mpr (.inr ⟨rfl, rfl, rfl⟩)⟩
      rw [hput']
      exact hput
  case once =>
    intro d u u' m m' v' hm hm'
    obtain hm | ⟨rfl, rfl, rfl, rfl⟩ := (hreceived ..).mp hm
    · obtain hm' | ⟨rfl, rfl, rfl, rfl⟩ := (hreceived ..).mp hm'
      · exact h.once d u u' m m' v' hm hm'
      · exact absurd hm (hnobody u m)
    · obtain hm' | ⟨-, rfl, rfl, -⟩ := (hreceived ..).mp hm'
      · exact absurd hm' (hnobody u' m')
      · exact ⟨rfl, rfl⟩
  case earlier =>
    intro d y z u hlt hy htake hgave
    rw [(hplaces d).1] at hy
    rw [(hplaces d).2] at htake
    -- a party that is given an element has no other one
    have hany : ∀ w, (L.places d).given y = some w → (L'.places d).given y ≠ none := by
      intro w hw hnone
      rw [(hgiven ..).mpr (.inl hw)] at hnone
      cases hnone
    obtain hgave | ⟨rfl, rfl, rfl⟩ := (hgiven ..).mp hgave
    · obtain ⟨w, hw⟩ := Option.ne_none_iff_exists'.mp (h.earlier d y z u hlt hy htake hgave)
      exact hany w hw
    · obtain ⟨w, hw⟩ := Option.ne_none_iff_exists'.mp (hrest y (Nat.ne_of_lt hlt) hy htake)
      exact hany w hw
  case turns =>
    intro d y z q r u m m' v₁ v₂ hy hz hm hm' hlt
    rw [hput'] at hy hz
    obtain hm | ⟨rfl, rfl, rfl, rfl⟩ := (hreceived ..).mp hm
    · obtain hm' | ⟨rfl, rfl, rfl, rfl⟩ := (hreceived ..).mp hm'
      · exact h.turns d y z q r u m m' v₁ v₂ hy hz hm hm' hlt
      · exact hfresh m v₁ hm
    · obtain ⟨-, rfl⟩ := h.unique d d y x q p v₁ v₁ hy hput ⟨rfl, rfl⟩
      obtain hm' | ⟨-, -, -, rfl⟩ := (hreceived ..).mp hm'
      · obtain ⟨z', q', hz', hgave⟩ := h.received d u m' v₂ hm'
        obtain ⟨-, rfl⟩ := h.unique d d z z' r q' v₂ v₂ hz hz' ⟨rfl, rfl⟩
        exact absurd hkept (h.earlier d y z u hlt (by rw [hy]; nofun) htaker hgave)
      · obtain ⟨-, rfl⟩ := h.unique d d y z q r v₂ v₂ hy hz ⟨rfl, rfl⟩
        omega

theorem step (h : L.Balanced sender call) (hstep : Step sender call L L') :
    L'.Balanced sender call := by
  cases hstep with
  | quiet hplaces hsending hsent hreceived =>
    refine h.of_same ?_ ?_ ?_ ?_ (fun c v => or_congr (hsending c v) (hsent c v)) hreceived
    all_goals rw [hplaces]
    · exact h.sound
    · exact fun _ => rfl
    · exact fun _ => rfl
    · exact h.earlier
  | puts c x v hsound hlast hfresh hself hother hsending hsent hreceived =>
    exact h.puts hsound hlast hfresh hself hother hsending hsent hreceived
  | sends c v hplaces hold hsending hsent hreceived =>
    refine h.of_same ?_ ?_ ?_ ?_ (fun d v' => ?_) hreceived
    · rw [hplaces]
      exact h.sound
    · exact fun _ => by rw [hplaces]
    · exact fun _ => by rw [hplaces]
    · rw [hplaces]
      exact h.earlier
    · rw [hsending, hsent]
      by_cases hv : d = c ∧ v' = v
      · obtain ⟨rfl, rfl⟩ := hv
        exact iff_of_true (.inr (.inr ⟨rfl, rfl⟩)) (.inl hold)
      · rw [and_iff_left hv, or_iff_left hv]
  | claims c x t hsound hfree hself hother hsending hsent hreceived =>
    have hsame : ∀ d, (L'.places d).put = (L.places d).put ∧
        (L'.places d).given = (L.places d).given := by
      intro d
      by_cases hd : d = c
      · rw [hd, hself]
        exact ⟨rfl, rfl⟩
      · rw [hother d hd]
        exact ⟨rfl, rfl⟩
    refine h.of_same (h.sound_of hsound hother) (fun d => (hsame d).1) (fun d => (hsame d).2) ?_
      (fun d v => or_congr (hsending d v) (hsent d v)) hreceived
    intro d y z u hlt hy htake hgave
    rw [(hsame d).1] at hy
    rw [(hsame d).2] at hgave ⊢
    -- a place that is only claimed now is behind those that were claimed before
    have hclaimed := (h.sound d).ordered y z hlt hy (by rw [((h.sound d).given z u hgave).1]; nofun)
    refine h.earlier d y z u hlt hy ?_ hgave
    by_cases hd : d = c
    · subst hd
      rw [hself] at htake
      by_cases hyx : y = x
      · subst hyx
        exact absurd hfree hclaimed
      · rwa [PlaceLog.setTaker_of_ne _ _ _ hyx] at htake
    · rwa [hother d hd] at htake
  | gives c x t n v hsound hput htaker hkept hfresh hrest hself hother hsending hsent hreceived =>
    exact h.gives hsound hput htaker hkept hfresh hrest hself hother hsending hsent hreceived

/-! ### What the accounts say -/

/-- An element that was sent waits in its queue, or is with who claimed it, or was received. -/
theorem whereabouts (h : L.Balanced sender call) {c : C} {v : A} (hsent : L.sent c v) :
    (∃ x, (L.places c).put x = some (sender v, v) ∧ (L.places c).taker x = none) ∨
      (∃ x t, (L.places c).put x = some (sender v, v) ∧ (L.places c).taker x = some t ∧
        (L.places c).given x = none) ∨
      ∃ t n, L.received c t n v := by
  obtain ⟨x, hx⟩ := h.placed c v (.inr hsent)
  cases htaker : (L.places c).taker x with
  | none => exact .inl ⟨x, hx, htaker⟩
  | some t =>
    cases hgiven : (L.places c).given x with
    | none => exact .inr (.inl ⟨x, t, hx, htaker, hgiven⟩)
    | some u =>
      obtain ⟨n, hn⟩ := h.given c x _ v u hx hgiven
      exact .inr (.inr ⟨u, n, hn⟩)

end Balanced

end Accounts

end Uvent.Lib
