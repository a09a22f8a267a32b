import BytecodeCoverage.Proofs.Bytes.RoundTrip

/-!
# Written forms that tell things apart

Two written forms agree on a property if it holds whenever the same bytes begin with both forms,
and if the forms are then equally long.  When the property says that the things written are the
same, no form of one thing is the beginning of a form of another.  Forms that agree part by part
agree as a whole.

**Main definitions.**
* `Written.Agree`: what two written forms have in common that begin the same bytes.

**Results.**
* `Read.Restores.agree`: what is restored by one reader is told apart.
* `Written.Agree.cons`: one part after the other.
* `Write.agree_counted`, `Write.agree_option`: lists and what may be missing.
-/

namespace BytecodeCoverage

/-- If the same bytes begin with both forms, then `p` holds and the same bytes follow. -/
def Written.Agree (v w : Written) (p : Prop) : Prop :=
  ∀ ⦃b c : List UInt8⦄, v = .ok b → w = .ok c →
    ∀ ⦃r r' : List UInt8⦄, b ++ r = c ++ r' → p ∧ r = r'

/-- Different things that one reader restores are written differently. -/
theorem Read.Restores.agree {ε α : Type} {item : Read ε α} {v w : Written} {x y : α}
    (hv : item.Restores v x) (hw : item.Restores w y) : v.Agree w (x = y) := by
  obtain ⟨b, rfl, hb⟩ := hv
  obtain ⟨c, rfl, hc⟩ := hw
  rintro _ _ ⟨⟩ ⟨⟩ r r' h
  have hread := hb 0 r
  rw [h, hc 0 r', Prod.mk.injEq, Except.ok.injEq, Reader.mk.injEq] at hread
  exact ⟨hread.1.symm, hread.2.2.symm⟩

namespace Written.Agree

variable {v w : Written} {vs ws : List Written} {p q : Prop}

theorem imp (h : v.Agree w p) (hpq : p → q) : v.Agree w q := by
  intro b c hb hc r r' hr
  obtain ⟨hp, rfl⟩ := h hb hc hr
  exact ⟨hpq hp, rfl⟩

theorem symm (h : v.Agree w p) : w.Agree v p := by
  intro b c hb hc r r' hr
  obtain ⟨hp, rfl⟩ := h hc hb hr.symm
  exact ⟨hp, rfl⟩

theorem nil : Agree (Write.sequence []) (Write.sequence []) True := by
  rintro _ _ ⟨⟩ ⟨⟩ r r' hr
  exact ⟨trivial, hr⟩

/-- What the first parts agree on may be used for the others. -/
theorem cons (h : v.Agree w p) (hrest : p → Agree (Write.sequence vs) (Write.sequence ws) q) :
    Agree (Write.sequence (v :: vs)) (Write.sequence (w :: ws)) (p ∧ q) := by
  intro b c hb hc r r' hr
  obtain ⟨front, others, hv, hvs, rfl⟩ := Write.exists_of_sequence_cons hb
  obtain ⟨front', others', hw, hws, rfl⟩ := Write.exists_of_sequence_cons hc
  rw [List.append_assoc, List.append_assoc] at hr
  obtain ⟨hp, hothers⟩ := h hv hw hr
  obtain ⟨hq, rfl⟩ := hrest hp hvs hws hothers
  exact ⟨⟨hp, hq⟩, rfl⟩

end Written.Agree

namespace Write

variable {α : Type} {write : α → Written}

theorem agree_varint {m n : Nat} (hm : m ≤ maxWord) (hn : n ≤ maxWord) :
    (varint m).Agree (varint n) (m = n) :=
  (Read.restores_varint hm).agree (Read.restores_varint hn)

theorem agree_word (m n : UInt32) : (varint m.toNat).Agree (varint n.toNat) (m = n) :=
  (agree_varint (Nat.le_of_lt_succ m.toNat_lt) (Nat.le_of_lt_succ n.toNat_lt)).imp
    UInt32.toNat_inj.1

theorem agree_bool (a b : Bool) : (bool a).Agree (bool b) (a = b) :=
  (Read.restores_bool a).agree (Read.restores_bool b)

/-- Numbers of elements that are too great have no written form. -/
theorem agree_count (m n : Nat) : (count m).Agree (count n) (m = n) := by
  intro b c hb hc
  have hm := le_of_count hb
  have hn := le_of_count hc
  rw [count, if_pos hm] at hb
  rw [count, if_pos hn] at hc
  exact agree_varint hm hn hb hc

theorem agree_elements {xs ys : List α} (hlength : xs.length = ys.length)
    (h : ∀ x ∈ xs, ∀ y ∈ ys, (write x).Agree (write y) (x = y)) :
    (elements write xs).Agree (elements write ys) (xs = ys) := by
  induction xs generalizing ys with
  | nil =>
      obtain rfl := List.length_eq_zero_iff.1 hlength.symm
      exact Written.Agree.nil.imp fun _ => rfl
  | cons x xs ih =>
      cases ys with
      | nil => cases hlength
      | cons y ys =>
          have hrest := ih (Nat.succ.inj hlength) fun x hx y hy =>
            h x (List.mem_cons_of_mem _ hx) y (List.mem_cons_of_mem _ hy)
          refine ((h x List.mem_cons_self y List.mem_cons_self).cons fun _ => hrest).imp ?_
          rintro ⟨rfl, rfl⟩
          rfl

theorem agree_counted {xs ys : List α}
    (h : ∀ x ∈ xs, ∀ y ∈ ys, (write x).Agree (write y) (x = y)) :
    (counted write xs).Agree (counted write ys) (xs = ys) :=
  ((agree_count _ _).cons fun hlength =>
    (agree_elements hlength h).cons fun _ => .nil).imp fun hall => hall.2.1

theorem agree_option {x y : Option α}
    (h : ∀ a ∈ x, ∀ b ∈ y, (write a).Agree (write b) (a = b)) :
    (option write x).Agree (option write y) (x = y) := by
  -- A value that is missing is told apart from one that is there by the first byte.
  have hmixed (a : α) {p : Prop} : (bool false).Agree (sequence [bool true, write a]) p := by
    rw [← sequence_single (bool false)]
    have hfirst := (agree_bool false true).imp Bool.false_ne_true
    exact (hfirst.cons False.elim).imp fun hboth : False ∧ p => hboth.1.elim
  cases x with
  | none =>
      cases y with
      | none => exact (agree_bool false false).imp fun _ => rfl
      | some b => exact hmixed b
  | some a =>
      cases y with
      | none => exact (hmixed a).symm
      | some b =>
          refine ((agree_bool true true).cons fun _ =>
            (h a rfl b rfl).cons fun _ => .nil).imp ?_
          rintro ⟨-, rfl, -⟩
          rfl

theorem agree_string (s t : String) : (string s).Agree (string t) (s = t) := by
  intro b c hb hc
  exact (Read.restores_string (length_le_of_string hb)).agree
    (Read.restores_string (length_le_of_string hc)) hb hc

end Write

end BytecodeCoverage
