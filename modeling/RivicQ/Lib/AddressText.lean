import RivicQ.Lib.Addresses

namespace RivicQ.Lib.AddressText

open RivicQ.Lib.Addresses RivicQ.Lib.Addresses.IP

variable {n g : Nat} {gs : List Nat} {s tail : List Char} {ip : List UInt8} {e : Option Nat}

theorem parseOctet_toDigits : ∀ n < 256,
    parseOctet (Nat.toDigits 10 n) = some (UInt8.ofNat n) := by
  decide +kernel

theorem not_mem_toDigits {c : Char} (hc : c.isDigit = false) (n : Nat) : c ∉ Nat.toDigits 10 n := by
  intro hmem
  rw [Nat.isDigit_of_mem_toDigits (by omega) (by omega) hmem] at hc
  cases hc

theorem hexDigit_digitChar : ∀ d < 16, isHexDigit d.digitChar = true ∧ hexValue d.digitChar = d := by
  decide

theorem toDigits_hex (n : Nat) : (∀ c ∈ Nat.toDigits 16 n, isHexDigit c = true) ∧
    (Nat.toDigits 16 n).foldl (fun acc c => 16 * acc + hexValue c) 0 = n := by
  induction n using Nat.strongRecOn with
  | _ n ih =>
    rw [Nat.toDigits_eq_if (by omega)]
    split
    · rename_i hn
      obtain ⟨hdigit, hvalue⟩ := hexDigit_digitChar n hn
      simp [hdigit, hvalue]
    · rename_i hn
      obtain ⟨hdigits, hvalues⟩ := ih (n / 16) (by omega)
      obtain ⟨hdigit, hvalue⟩ := hexDigit_digitChar (n % 16) (Nat.mod_lt n (by omega))
      constructor
      · intro c hc
        obtain hc | hc := List.mem_append.mp hc
        · exact hdigits c hc
        · rw [List.mem_singleton.mp hc]
          exact hdigit
      · rw [List.foldl_append, hvalues, List.foldl_cons, List.foldl_nil, hvalue]
        omega

/-- What stands behind a group does not go on with it. -/
def Ends (tail : List Char) : Prop := tail.head?.all (fun c => !isHexDigit c) = true

theorem takeWhile_group (ht : Ends tail) :
    (Nat.toDigits 16 g ++ tail).takeWhile isHexDigit = Nat.toDigits 16 g ∧
      (Nat.toDigits 16 g ++ tail).dropWhile isHexDigit = tail := by
  have hdigits := (toDigits_hex g).1
  rw [List.takeWhile_append_of_pos hdigits, List.dropWhile_append_of_pos hdigits]
  cases tail with
  | nil => simp
  | cons c tail =>
    have hc : isHexDigit c = false := by simpa [Ends] using ht
    simp [hc]

theorem digits_length (hg : g < 65536) :
    ¬ ((Nat.toDigits 16 g).length = 0 ∨ 4 < (Nat.toDigits 16 g).length) := by
  have hpos : 0 < (Nat.toDigits 16 g).length := Nat.length_toDigits_pos
  have hle : (Nat.toDigits 16 g).length ≤ 4 :=
    (Nat.length_toDigits_le_iff (by omega) (by omega)).mpr hg
  omega

theorem ends_nil : Ends [] := rfl

theorem ends_colon (tail : List Char) : Ends (':' :: tail) := rfl

theorem hexText_cons (g : Nat) (gs : List Nat) :
    hexText (g :: gs) = Nat.toDigits 16 g ++ if gs = [] then [] else ':' :: hexText gs := by
  cases gs with
  | nil => simp [hexText]
  | cons h gs => simp [hexText, List.intercalate_cons_cons]

theorem hexText_head (hgs : gs ≠ []) (tail : List Char) :
    ∃ c rest, hexText gs ++ tail = c :: rest ∧ isHexDigit c = true := by
  obtain ⟨g, gs, rfl⟩ := List.exists_cons_of_ne_nil hgs
  rw [hexText_cons]
  obtain ⟨c, rest, hc⟩ := List.exists_cons_of_ne_nil (Nat.toDigits_ne_nil (n := g) (b := 16))
  refine ⟨c, rest ++ (if gs = [] then [] else ':' :: hexText gs) ++ tail, by rw [hc]; simp, ?_⟩
  exact (toDigits_hex g).1 c (hc ▸ List.mem_cons_self)

theorem parseFields_end (hg : g < 65536) :
    parseFields (n + 1) (Nat.toDigits 16 g) ip e = some (ip ++ groupBytes g, e, []) := by
  obtain ⟨htake, hdrop⟩ := takeWhile_group (g := g) ends_nil
  rw [List.append_nil] at htake hdrop
  rw [parseFields]
  simp only [htake, hdrop, (toDigits_hex g).2, if_neg (digits_length hg)]

theorem parseFields_colon (hg : g < 65536) {c : Char} (hc : c ≠ ':') :
    parseFields (n + 1) (Nat.toDigits 16 g ++ ':' :: c :: tail) ip e =
      parseFields n (c :: tail) (ip ++ groupBytes g) e := by
  obtain ⟨htake, hdrop⟩ := takeWhile_group (g := g) (ends_colon (c :: tail))
  rw [parseFields]
  simp only [htake, hdrop, (toDigits_hex g).2, if_neg (digits_length hg)]
  split
  all_goals simp_all

theorem parseFields_colons (hg : g < 65536) :
    parseFields (n + 1) (Nat.toDigits 16 g ++ ':' :: ':' :: tail) ip none =
      if tail = [] then some (ip ++ groupBytes g, some (ip.length + 2), [])
      else parseFields n tail (ip ++ groupBytes g) (some (ip.length + 2)) := by
  obtain ⟨htake, hdrop⟩ := takeWhile_group (g := g) (ends_colon (':' :: tail))
  rw [parseFields]
  simp only [htake, hdrop, (toDigits_hex g).2, if_neg (digits_length hg), ne_eq, not_true_eq_false,
    if_false]

theorem parseFields_step (hg : g < 65536) (hgs : gs ≠ []) (tail : List Char) :
    parseFields (n + 1) (Nat.toDigits 16 g ++ (':' :: (hexText gs ++ tail))) ip e =
      parseFields n (hexText gs ++ tail) (ip ++ groupBytes g) e := by
  obtain ⟨c, rest, hc, hhex⟩ := hexText_head hgs tail
  have hcolon : c ≠ ':' := by
    rintro rfl
    exact absurd hhex (by decide)
  rw [hc, parseFields_colon hg hcolon]

/-- The bytes of groups. -/
def ungroup (gs : List Nat) : List UInt8 := gs.flatMap groupBytes

theorem ungroup_cons (g : Nat) (gs : List Nat) : ungroup (g :: gs) = groupBytes g ++ ungroup gs :=
  List.flatMap_cons

theorem length_ungroup (gs : List Nat) : (ungroup gs).length = 2 * gs.length := by
  induction gs with
  | nil => rfl
  | cons g gs ih =>
    rw [ungroup_cons, List.length_append, ih, List.length_cons]
    simp only [groupBytes, List.length_cons, List.length_nil]
    omega

/-- Groups at the end of the text are read in turn. -/
theorem parseFields_hexText (hne : gs ≠ []) (hgs : ∀ g ∈ gs, g < 65536) (hn : gs.length ≤ n) :
    parseFields n (hexText gs) ip e = some (ip ++ ungroup gs, e, []) := by
  induction gs generalizing n ip with
  | nil => exact absurd rfl hne
  | cons g gs ih =>
    obtain ⟨m, rfl⟩ : ∃ m, n = m + 1 := ⟨n - 1, by rw [List.length_cons] at hn; omega⟩
    have hg := hgs g List.mem_cons_self
    rw [hexText_cons, ungroup_cons]
    by_cases hnil : gs = []
    · rw [if_pos hnil, List.append_nil, parseFields_end hg, hnil]
      simp [ungroup]
    · have hstep := @parseFields_step m _ _ ip e hg hnil []
      rw [List.append_nil] at hstep
      rw [if_neg hnil, hstep, ih hnil (fun g hg => hgs g (List.mem_cons_of_mem _ hg))
        (by rw [List.length_cons] at hn; omega), List.append_assoc]

/-- Groups in front of the ellipsis are read in turn, up to the ellipsis. -/
theorem parseFields_ellipsis (hne : gs ≠ []) (hgs : ∀ g ∈ gs, g < 65536) (hn : gs.length ≤ n)
    (tail : List Char) :
    parseFields n (hexText gs ++ ':' :: ':' :: tail) ip none =
      if tail = [] then some (ip ++ ungroup gs, some (ip.length + 2 * gs.length), [])
      else parseFields (n - gs.length) tail (ip ++ ungroup gs)
        (some (ip.length + 2 * gs.length)) := by
  induction gs generalizing n ip with
  | nil => exact absurd rfl hne
  | cons g gs ih =>
    obtain ⟨m, rfl⟩ : ∃ m, n = m + 1 := ⟨n - 1, by rw [List.length_cons] at hn; omega⟩
    have hg := hgs g List.mem_cons_self
    rw [hexText_cons, ungroup_cons]
    by_cases hnil : gs = []
    · rw [if_pos hnil, List.append_nil, parseFields_colons hg, hnil]
      simp [ungroup]
    · have hstep := @parseFields_step m _ _ ip none hg hnil (':' :: ':' :: tail)
      rw [if_neg hnil, List.append_assoc, List.cons_append, hstep,
        ih hnil (fun g hg => hgs g (List.mem_cons_of_mem _ hg))
          (by rw [List.length_cons] at hn; omega)]
      have hlen : (ip ++ groupBytes g).length + 2 * gs.length =
          ip.length + 2 * (g :: gs).length := by
        simp only [groupBytes, List.length_append, List.length_cons, List.length_nil]
        omega
      have hroom : m - gs.length = m + 1 - (g :: gs).length := by
        rw [List.length_cons]
        omega
      rw [hlen, hroom, List.append_assoc]

/-- A run of zeros among groups, with room for an ellipsis in its place. -/
def ZeroRun (gs : List Nat) (r : Nat × Nat) : Prop :=
  r.1 < r.2 ∧ r.2 ≤ gs.length ∧ (gs.take r.2).drop r.1 = List.replicate (r.2 - r.1) 0

theorem takeWhile_zeros (i : Nat) (gs : List Nat) (h : i ≤ gs.length) :
    i + ((gs.drop i).takeWhile (· = 0)).length ≤ gs.length ∧
      (gs.take (i + ((gs.drop i).takeWhile (· = 0)).length)).drop i =
        List.replicate ((gs.drop i).takeWhile (· = 0)).length 0 := by
  have hfront : (gs.drop i).takeWhile (· = 0) <+: gs.drop i := List.takeWhile_prefix _
  have hle := hfront.length_le
  rw [List.length_drop] at hle
  constructor
  · omega
  · rw [List.drop_take, Nat.add_sub_cancel_left, List.prefix_iff_eq_take.mp hfront |>.symm]
    refine List.eq_replicate_iff.mpr ⟨rfl, fun b hb => ?_⟩
    simpa using List.mem_takeWhile_imp hb

theorem zeroRun_spec (gs : List Nat) : zeroRun gs = (255, 255) ∨ ZeroRun gs (zeroRun gs) := by
  have hfold : ∀ (is : List Nat) (best : Nat × Nat), (∀ i ∈ is, i < gs.length) →
      best = (255, 255) ∨ ZeroRun gs best →
      (is.foldl (fun best i =>
        let l := ((gs.drop i).takeWhile (· = 0)).length
        if 2 ≤ l ∧ best.2 - best.1 < l then (i, i + l) else best) best) = (255, 255) ∨
      ZeroRun gs (is.foldl (fun best i =>
        let l := ((gs.drop i).takeWhile (· = 0)).length
        if 2 ≤ l ∧ best.2 - best.1 < l then (i, i + l) else best) best) := by
    intro is
    induction is with
    | nil => exact fun best _ h => h
    | cons i is ih =>
      intro best his h
      rw [List.foldl_cons]
      apply ih _ fun j hj => his j (List.mem_cons_of_mem i hj)
      extract_lets l
      split
      · rename_i hl
        obtain ⟨hle, hzeros⟩ := takeWhile_zeros i gs (his i List.mem_cons_self).le
        right
        refine ⟨?_, hle, ?_⟩
        · change i < i + l
          omega
        · change (gs.take (i + l)).drop i = List.replicate (i + l - i) 0
          rw [Nat.add_sub_cancel_left]
          exact hzeros
      · exact h
  exact hfold _ _ (fun i hi => List.mem_range.mp hi) (Or.inl rfl)

theorem split_zeroRun {r : Nat × Nat} (h : ZeroRun gs r) :
    gs = gs.take r.1 ++ List.replicate (r.2 - r.1) 0 ++ gs.drop r.2 := by
  obtain ⟨hlt, hle, hzeros⟩ := h
  rw [← hzeros]
  have htake : gs.take r.1 = (gs.take r.2).take r.1 := by
    rw [List.take_take, Nat.min_eq_left hlt.le]
  rw [htake, List.take_append_drop, List.take_append_drop]

theorem ungroup_append (gs hs : List Nat) : ungroup (gs ++ hs) = ungroup gs ++ ungroup hs :=
  List.flatMap_append

theorem ungroup_zeros (n : Nat) : ungroup (List.replicate n 0) = List.replicate (2 * n) 0 := by
  induction n with
  | zero => rfl
  | succ n ih =>
    rw [List.replicate_succ, ungroup_cons, ih]
    rfl

theorem length_groups : ∀ bytes : List UInt8, (groups bytes).length = bytes.length / 2
  | [] => rfl
  | [_] => by simp [groups]
  | a :: b :: rest => by
    rw [groups, List.length_cons, length_groups rest]
    simp only [List.length_cons]
    omega

theorem groups_lt : ∀ (bytes : List UInt8), ∀ g ∈ groups bytes, g < 65536
  | [] => by simp [groups]
  | [_] => by simp [groups]
  | a :: b :: rest => by
    intro g hg
    rw [groups] at hg
    obtain rfl | hg := List.mem_cons.mp hg
    · have ha := a.toNat_lt
      have hb := b.toNat_lt
      omega
    · exact groups_lt rest g hg

theorem groupBytes_group (a b : UInt8) : groupBytes (256 * a.toNat + b.toNat) = [a, b] := by
  have ha := a.toNat_lt
  have hb := b.toNat_lt
  have hhigh : (256 * a.toNat + b.toNat) / 256 = a.toNat := by omega
  have hlow : UInt8.ofNat (256 * a.toNat + b.toNat) = b := by
    apply UInt8.toNat_inj.mp
    rw [UInt8.toNat_ofNat']
    omega
  rw [groupBytes, hhigh, hlow, UInt8.ofNat_toNat]

theorem ungroup_groups : ∀ bytes : List UInt8, bytes.length % 2 = 0 → ungroup (groups bytes) = bytes
  | [], _ => rfl
  | [_], h => absurd h (by simp)
  | a :: b :: rest, h => by
    have hrest : rest.length % 2 = 0 := by
      simp only [List.length_cons] at h
      omega
    rw [groups, ungroup_cons, groupBytes_group, ungroup_groups rest hrest]
    rfl

theorem hexText_not_colons (hgs : gs ≠ []) (tail : List Char) :
    hexText gs ++ tail ≠ [':', ':'] ∧ ¬ [':', ':'] <+: hexText gs ++ tail := by
  suffices h : ¬ [':', ':'] <+: hexText gs ++ tail from ⟨fun he => h (he ▸ List.prefix_rfl), h⟩
  obtain ⟨c, rest, hc, hhex⟩ := hexText_head hgs tail
  rw [hc]
  rintro ⟨t, ht⟩
  rw [← (List.cons.inj ht).1] at hhex
  exact absurd hhex (by decide)

theorem expand_of_lt {i : Nat} (h : ip.length < 16) :
    expand ip (some i) =
      some (ip.take i ++ List.replicate (16 - ip.length) 0 ++ ip.drop i) := if_pos h

/-- A text with its ellipsis is read back with the zeros it stands for. -/
theorem parseIPv6_ellipsis {pre post : List Nat} (hpre : ∀ g ∈ pre, g < 65536)
    (hpost : ∀ g ∈ post, g < 65536) (hlen : pre.length + post.length < 8) :
    parseIPv6 (hexText pre ++ [':', ':'] ++ hexText post) =
      some (ungroup pre ++ List.replicate (16 - 2 * (pre.length + post.length)) 0 ++
        ungroup post) := by
  have hbytes : (ungroup pre ++ ungroup post).length = 2 * (pre.length + post.length) := by
    rw [List.length_append, length_ungroup, length_ungroup]
    omega
  have hroom : (ungroup pre ++ ungroup post).length < 16 := by omega
  have hexpand : expand (ungroup pre ++ ungroup post) (some (2 * pre.length)) =
      some (ungroup pre ++ List.replicate (16 - 2 * (pre.length + post.length)) 0 ++
        ungroup post) := by
    rw [expand_of_lt hroom, hbytes, List.take_left' (length_ungroup pre),
      List.drop_left' (length_ungroup pre)]
  unfold parseIPv6
  by_cases hnil : pre = []
  · subst hnil
    by_cases hend : post = []
    · subst hend
      rfl
    · obtain ⟨c, rest, hc, _⟩ := hexText_head hend []
      rw [List.append_nil] at hc
      have hne : ¬ hexText [] ++ [':', ':'] ++ hexText post = [':', ':'] := by
        rw [hc]
        simp [hexText]
      have hcolons : [':', ':'] <+: hexText [] ++ [':', ':'] ++ hexText post := ⟨hexText post, rfl⟩
      have hdrop : (hexText [] ++ [':', ':'] ++ hexText post).drop 2 = hexText post := rfl
      rw [if_neg hne, if_pos hcolons, hdrop]
      simp only [parseFields_hexText hend hpost (by simpa using hlen.le), List.nil_append]
      exact hexpand
  · obtain ⟨hne, hcolons⟩ := hexText_not_colons hnil ([':', ':'] ++ hexText post)
    rw [← List.append_assoc] at hne hcolons
    have hread := @parseFields_ellipsis 8 _ [] hnil hpre (by omega) (hexText post)
    rw [if_neg hne, if_neg hcolons]
    simp only [List.append_assoc, List.cons_append, List.nil_append, hread]
    by_cases hend : post = []
    · subst hend
      have hnil' : hexText [] = [] := rfl
      simp only [hnil', if_true, List.length_nil, Nat.zero_add]
      simpa [ungroup] using hexpand
    · obtain ⟨c, rest, hc, _⟩ := hexText_head hend []
      rw [List.append_nil] at hc
      rw [if_neg (by rw [hc]; simp), parseFields_hexText hend hpost (by omega)]
      simpa using hexpand

/-- What is written for eight groups is read back. -/
theorem parseIPv6_text6 (hgs : ∀ g ∈ gs, g < 65536) (hlen : gs.length = 8) :
    parseIPv6 (text6 gs) = some (ungroup gs) := by
  obtain hrun | hrun := zeroRun_spec gs
  · have hne : gs ≠ [] := by
      rintro rfl
      cases hlen
    have htext : text6 gs = hexText gs := by
      rw [text6, hrun]
      rfl
    obtain ⟨hstart, hcolons⟩ := hexText_not_colons hne []
    rw [List.append_nil] at hstart hcolons
    rw [htext, parseIPv6, if_neg hstart, if_neg hcolons]
    simp only [parseFields_hexText hne hgs hlen.le, List.nil_append]
    rw [expand, if_neg (by rw [length_ungroup]; omega)]
    rfl
  · have hsplit := split_zeroRun hrun
    obtain ⟨hlt, hle, _⟩ := hrun
    have htext : text6 gs = hexText (gs.take (zeroRun gs).1) ++ [':', ':'] ++
        hexText (gs.drop (zeroRun gs).2) := by
      have hstart : (zeroRun gs).1 ≠ 255 := by omega
      exact if_neg hstart
    have hpre : (gs.take (zeroRun gs).1).length = (zeroRun gs).1 := by
      rw [List.length_take]
      omega
    have hpost : (gs.drop (zeroRun gs).2).length = 8 - (zeroRun gs).2 := by
      rw [List.length_drop, hlen]
    have hroom : 16 - 2 * ((zeroRun gs).1 + (8 - (zeroRun gs).2)) =
        2 * ((zeroRun gs).2 - (zeroRun gs).1) := by omega
    rw [htext, parseIPv6_ellipsis (fun g hg => hgs g (List.mem_of_mem_take hg))
      (fun g hg => hgs g (List.mem_of_mem_drop hg)) (by omega), hpre, hpost, hroom,
      ← ungroup_zeros, ← ungroup_append, ← ungroup_append, ← hsplit]

theorem parseIPv4Fields_text4 {b : List UInt8} (h : b.length = 4) :
    parseIPv4Fields (text4 b) = some b := by
  match b, h with
  | [w, x, y, z], _ =>
    have hsplit : (text4 [w, x, y, z]).splitOn '.' =
        [w, x, y, z].map fun x => Nat.toDigits 10 x.toNat := by
      refine List.splitOn_intercalate '.' (fun l hl hdot => ?_) (by simp)
      obtain ⟨x, _, rfl⟩ := List.mem_map.mp hl
      exact not_mem_toDigits (by decide) x.toNat hdot
    have hoctet : ∀ x : UInt8, parseOctet (Nat.toDigits 10 x.toNat) = some x := fun x => by
      rw [parseOctet_toDigits x.toNat x.toNat_lt, UInt8.ofNat_toNat]
    rw [parseIPv4Fields, hsplit]
    simp [hoctet]

theorem find_text4 {b : List UInt8} (h : b.length = 4) :
    (text4 b).find? (fun c => c = '.' || c = ':' || c = '%') = some '.' := by
  match b, h with
  | [w, x, y, z], _ =>
    have hnone : (Nat.toDigits 10 w.toNat).find? (fun c => c = '.' || c = ':' || c = '%') = none := by
      rw [List.find?_eq_none]
      intro c hc hsep
      simp only [Bool.or_eq_true, decide_eq_true_eq] at hsep
      obtain (rfl | rfl) | rfl := hsep
      all_goals exact not_mem_toDigits (by decide) w.toNat hc
    have htext : text4 [w, x, y, z] = Nat.toDigits 10 w.toNat ++ ('.' :: text4 [x, y, z]) := by
      simp [text4, List.intercalate_cons_cons]
    rw [htext, List.find?_append, hnone]
    simp

theorem mem_hexText {c : Char} (hc : c ∈ hexText gs) : c = ':' ∨ isHexDigit c = true := by
  induction gs with
  | nil => cases hc
  | cons g gs ih =>
    rw [hexText_cons] at hc
    obtain hc | hc := List.mem_append.mp hc
    · exact Or.inr ((toDigits_hex g).1 c hc)
    · split at hc
      · cases hc
      · obtain rfl | hc := List.mem_cons.mp hc
        · exact Or.inl rfl
        · exact ih hc

theorem text6_eq (gs : List Nat) : text6 gs =
    if (zeroRun gs).1 = 255 then hexText gs
    else hexText (gs.take (zeroRun gs).1) ++ [':', ':'] ++ hexText (gs.drop (zeroRun gs).2) := rfl

theorem mem_text6 {c : Char} (hc : c ∈ text6 gs) : c = ':' ∨ isHexDigit c = true := by
  rw [text6_eq] at hc
  split at hc
  · exact mem_hexText hc
  · obtain hc | hc := List.mem_append.mp hc
    · obtain hc | hc := List.mem_append.mp hc
      · exact mem_hexText hc
      · left
        simpa using hc
    · exact mem_hexText hc

theorem colon_mem_text6 (h : 2 ≤ gs.length) : ':' ∈ text6 gs := by
  rw [text6_eq]
  split
  · match gs, h with
    | g :: h :: gs, _ =>
      rw [hexText_cons]
      simp
  · simp

theorem find_text6 (h : 2 ≤ gs.length) :
    (text6 gs).find? (fun c => c = '.' || c = ':' || c = '%') = some ':' := by
  cases hfind : (text6 gs).find? (fun c => c = '.' || c = ':' || c = '%') with
  | none =>
    have hnot := List.find?_eq_none.mp hfind ':' (colon_mem_text6 h)
    exact absurd rfl hnot
  | some c =>
    have hc := List.find?_some hfind
    obtain rfl | hhex := mem_text6 (List.mem_of_find?_eq_some hfind)
    · rfl
    · simp only [Bool.or_eq_true, decide_eq_true_eq] at hc
      obtain (rfl | rfl) | rfl := hc
      · exact absurd hhex (by decide)
      · rfl
      · exact absurd hhex (by decide)

section Addresses

variable {ip : IP} {b : List UInt8}

theorem to4_eq (h : ip.to4 = some b) : b.length = 4 ∧ ip.to16.bytes = v4InV6Prefix ++ b := by
  unfold to4 at h
  unfold to16
  by_cases h4 : ip.bytes.length = 4
  · rw [if_pos h4] at h
    cases h
    exact ⟨h4, by rw [dif_pos h4]⟩
  · rw [if_neg h4] at h
    rw [dif_neg h4]
    split at h
    · rename_i hfront
      obtain ⟨rest, hrest⟩ := hfront
      have h16 := ip.length_bytes.resolve_left h4
      have hb : b = rest := by
        rw [← Option.some.inj h, ← hrest]
        rfl
      rw [← hrest, List.length_append] at h16
      refine ⟨?_, by rw [← hrest, hb]⟩
      rw [hb]
      have h12 : v4InV6Prefix.length = 12 := rfl
      omega
    · cases h

theorem to4_none (h : ip.to4 = none) : ip.bytes.length = 16 ∧ ip.to16 = ip := by
  unfold to4 at h
  split at h
  · cases h
  · rename_i h4
    exact ⟨ip.length_bytes.resolve_left h4, dif_neg h4⟩

@[simp] theorem to4_to16 : ip.to16.to4 = ip.to4 := by
  by_cases h4 : ip.bytes.length = 4
  · have h16 : ip.to16.bytes = v4InV6Prefix ++ ip.bytes := by rw [to16, dif_pos h4]
    have hlen : ip.to16.bytes.length = 16 := by
      rw [h16, List.length_append, h4]
      rfl
    have hfront : v4InV6Prefix <+: ip.to16.bytes := ⟨ip.bytes, h16.symm⟩
    rw [to4, if_neg (by omega), if_pos hfront, to4, if_pos h4, h16]
    rfl
  · rw [to16, dif_neg h4]

@[simp] theorem to16_to16 : ip.to16.to16 = ip.to16 := by
  refine dif_neg ?_
  unfold to16
  split
  · rename_i h4
    change (v4InV6Prefix ++ ip.bytes).length ≠ 4
    rw [List.length_append, h4]
    decide
  · assumption

/-- What `String` writes, `ParseIP` reads as the same address. -/
theorem parseIP_string : parseIP ip.string = some ip.to16 := by
  have hbytes : parseBytes ip.string.toList = some ip.to16.bytes := by
    unfold string parseBytes
    cases h4 : ip.to4 with
    | some b =>
      obtain ⟨hlen, h16⟩ := to4_eq h4
      simp only [String.toList_ofList, find_text4 hlen, parseIPv4Fields_text4 hlen, h16,
        Option.map_some]
    | none =>
      obtain ⟨hlen, h16⟩ := to4_none h4
      have hgroups : (groups ip.bytes).length = 8 := by rw [length_groups, hlen]
      have hzone : '%' ∉ text6 (groups ip.bytes) := by
        intro hmem
        obtain h | h := mem_text6 hmem
        · exact absurd h (by decide)
        · exact absurd h (by decide)
      simp only [String.toList_ofList, find_text6 (by omega : 2 ≤ (groups ip.bytes).length),
        if_neg hzone, parseIPv6_text6 (groups_lt ip.bytes) hgroups,
        ungroup_groups ip.bytes (by omega), h16]
  have hlen : ip.to16.bytes.length = 16 := by
    unfold to16
    split
    · rename_i h4
      rw [List.length_append, h4]
      rfl
    · rename_i h4
      exact ip.length_bytes.resolve_left h4
  rw [parseIP, hbytes]
  exact dif_pos hlen

theorem mem_text4 {c : Char} {b : List UInt8} (hc : c ∈ text4 b) :
    c = '.' ∨ c.isDigit = true := by
  have hdigit : ∀ {x : UInt8}, c ∈ Nat.toDigits 10 x.toNat → c.isDigit = true := fun hmem =>
    Nat.isDigit_of_mem_toDigits (by omega) (by omega) hmem
  induction b with
  | nil => cases hc
  | cons x b ih =>
    cases b with
    | nil =>
      right
      exact hdigit (x := x) (by simpa [text4] using hc)
    | cons y b =>
      have htext : text4 (x :: y :: b) = Nat.toDigits 10 x.toNat ++ '.' :: text4 (y :: b) := by
        simp [text4, List.intercalate_cons_cons]
      rw [htext] at hc
      obtain hc | hc := List.mem_append.mp hc
      · exact Or.inr (hdigit hc)
      · obtain rfl | hc := List.mem_cons.mp hc
        · exact Or.inl rfl
        · exact ih hc

/-- An address is written without brackets. -/
theorem bracket_string {c : Char} (hc : c = '[' ∨ c = ']') : c ∉ ip.string.toList := by
  intro hmem
  unfold IP.string at hmem
  split at hmem
  · rw [String.toList_ofList] at hmem
    obtain rfl | rfl := hc
    all_goals
      obtain h | h := mem_text4 hmem
      all_goals exact absurd h (by decide)
  · rw [String.toList_ofList] at hmem
    obtain rfl | rfl := hc
    all_goals
      obtain h | h := mem_text6 hmem
      all_goals exact absurd h (by decide)

end Addresses

end RivicQ.Lib.AddressText
