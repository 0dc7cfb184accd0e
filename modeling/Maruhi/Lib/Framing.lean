import Mathlib.Algebra.Group.Nat.Defs
import Mathlib.Data.List.Forall2
import Maruhi.Lib.Text

/-!
# Length-prefixed framing

A list of bodies, each after its length as four big-endian bytes. Bodies below 2^32 bytes are
read back one by one, so no boundary can shift.
-/

namespace Framing

theorem mapM_eq_some {α β : Type} {f : α → Option β} {l : List α} {bs : List β} :
    l.mapM f = some bs ↔ List.Forall₂ (fun a b => f a = some b) l bs := by
  induction l generalizing bs with
  | nil =>
    simp only [List.mapM_nil, Option.pure_def, Option.some.injEq, List.forall₂_nil_left_iff]
    exact eq_comm
  | cons a rest ih =>
    simp only [List.mapM_cons, Option.bind_eq_bind, Option.bind_eq_some_iff, Option.pure_def, Option.some.injEq,
      List.forall₂_cons_left_iff]
    constructor
    · rintro ⟨b, hb, bs', hbs, rfl⟩; exact ⟨b, bs', hb, ih.mp hbs, rfl⟩
    · rintro ⟨b, bs', hb, hbs, rfl⟩; exact ⟨b, hb, bs', ih.mpr hbs, rfl⟩

theorem exists_of_mapM {α β : Type} {f : α → Option β} {l : List α} {bs : List β} (h : l.mapM f = some bs) {a : α}
    (ha : a ∈ l) : ∃ b, f a = some b := by
  have hforall := mapM_eq_some.mp h
  induction hforall with
  | nil => cases ha
  | @cons x b l bs hx hrest ih =>
    rcases List.mem_cons.mp ha with rfl | ha
    · exact ⟨b, hx⟩
    · exact ih (mapM_eq_some.mpr hrest) ha

def uint32be (n : Nat) : Bytes :=
  [UInt8.ofNat (n / 2 ^ 24), UInt8.ofNat (n / 2 ^ 16), UInt8.ofNat (n / 2 ^ 8), UInt8.ofNat n]

def frame (body : Bytes) : Bytes := uint32be body.length ++ body

def frames (bodies : List Bytes) : Bytes := bodies.flatMap frame

theorem uint32be_inj {m n : Nat} (hm : m < 2 ^ 32) (hn : n < 2 ^ 32) (h : uint32be m = uint32be n) : m = n := by
  have hbyte : ∀ a b : Nat, UInt8.ofNat a = UInt8.ofNat b → a % 256 = b % 256 := fun a b hab => by
    simpa only [UInt8.toNat_ofNat'] using congrArg UInt8.toNat hab
  simp only [uint32be, List.cons.injEq, and_true] at h
  obtain ⟨h3, h2, h1, h0⟩ := h
  have h3 := hbyte _ _ h3
  have h2 := hbyte _ _ h2
  have h1 := hbyte _ _ h1
  have h0 := hbyte _ _ h0
  omega

theorem frame_append_inj {a b r r' : Bytes} (ha : a.length < 2 ^ 32) (hb : b.length < 2 ^ 32)
    (h : frame a ++ r = frame b ++ r') : a = b ∧ r = r' := by
  simp only [frame, List.append_assoc] at h
  obtain ⟨hlen, hrest⟩ := List.append_inj h rfl
  exact List.append_inj hrest (uint32be_inj ha hb hlen)

theorem frame_ne_nil (a : Bytes) : frame a ≠ [] := by simp [frame, uint32be]

theorem frames_inj {l m : List Bytes} (hl : ∀ b ∈ l, b.length < 2 ^ 32) (hm : ∀ b ∈ m, b.length < 2 ^ 32)
    (h : frames l = frames m) : l = m := by
  induction l generalizing m with
  | nil =>
    cases m with
    | nil => rfl
    | cons b rest => simp [frames, frame_ne_nil] at h
  | cons a rest ih =>
    cases m with
    | nil => simp [frames, frame_ne_nil] at h
    | cons b rest' =>
      simp only [frames, List.flatMap_cons] at h
      obtain ⟨rfl, hrest⟩ := frame_append_inj (hl a (by simp)) (hm b (by simp)) h
      rw [ih (fun x hx => hl x (by simp [hx])) (fun x hx => hm x (by simp [hx])) hrest]

end Framing
