import Mathlib.Data.List.DropRight
import Mathlib.Data.List.TakeDrop
import Mathlib.Data.List.TakeWhile
import PieceKeeper.Proofs.Url.Path
import PieceKeeper.Text.Blank

/-!
# What stands behind a slash

A slash is no edge and no break, does not stand in a scheme, and ends the host.  So each step of
reading an address finds in front of a slash what it would find there anyway, whatever stands
behind it.
-/

namespace PieceKeeper.Url

variable {front tail : List Char} {test : Char → Bool} {c : Char}

/-! ## Cutting -/

theorem cut_eq (test : Char → Bool) (text : List Char) :
    cut test text = (text.takeWhile fun c ↦ ¬ test c, text.dropWhile fun c ↦ ¬ test c) :=
  List.span_eq_takeWhile_dropWhile _ _

theorem cut_append_of_forall (h : ∀ c ∈ front, test c = false) (tail : List Char) :
    cut test (front ++ tail) = (front ++ (cut test tail).1, (cut test tail).2) := by
  have hkept : ∀ c ∈ front, decide (¬ test c = true) = true := by simpa using h
  simp only [cut_eq]
  rw [List.takeWhile_append_of_pos hkept, List.dropWhile_append_of_pos hkept]

theorem cut_of_forall (h : ∀ c ∈ front, test c = false) : cut test front = (front, []) := by
  have hkept : ∀ c ∈ front, decide (¬ test c = true) = true := by simpa using h
  rw [cut_eq, List.takeWhile_eq_self_iff.mpr hkept, List.dropWhile_eq_nil_iff.mpr hkept]

theorem cut_cons_of_true (h : test c = true) (tail : List Char) :
    cut test (c :: tail) = ([], c :: tail) := by
  rw [cut_eq, List.takeWhile_cons_of_neg (by simpa using h),
    List.dropWhile_cons_of_neg (by simpa using h)]

theorem cut_append_cons (h : test c = true) (front tail : List Char) :
    cut test (front ++ c :: tail) = ((cut test front).1, (cut test front).2 ++ c :: tail) := by
  obtain hfront | ⟨first, d, rest, rfl, hfirst, hd⟩ := forall_or_exists_first test front
  · rw [cut_append_of_forall hfront, cut_of_forall hfront, cut_cons_of_true h, List.append_nil,
      List.nil_append]
  · rw [List.append_assoc, List.cons_append, cut_append_of_forall hfirst,
      cut_append_of_forall hfirst, cut_cons_of_true hd, cut_cons_of_true hd, List.cons_append]

/-! ## Edges and breaks -/

/-- Whether a character is dropped at the ends of an address. -/
def isEdge (c : Char) : Bool := c.toNat ≤ 0x20

/-- A text without the breaks in it. -/
def dropBreaks (text : List Char) : List Char :=
  text.filter fun c ↦ ¬ (c = '\t' ∨ c = '\n' ∨ c = '\r')

/-- A text at the end of an address, without what is dropped there. -/
def cleanEnd (text : List Char) : List Char := dropBreaks (Text.dropEnd isEdge text)

@[simp] theorem cleanEnd_nil : cleanEnd [] = [] := rfl

theorem clean_eq (text : List Char) : clean text = cleanEnd (text.dropWhile isEdge) := rfl

theorem dropWhile_append_cons (h : test c = false) (front tail : List Char) :
    (front ++ c :: tail).dropWhile test = front.dropWhile test ++ c :: tail := by
  rw [List.dropWhile_append]
  split_ifs with hall
  · rw [List.isEmpty_iff.mp hall, List.dropWhile_cons_of_neg (ne_true_of_eq_false h),
      List.nil_append]
  · rfl

theorem dropEnd_append_cons (h : test c = false) (front tail : List Char) :
    Text.dropEnd test (front ++ c :: tail) = front ++ c :: Text.dropEnd test tail := by
  rw [Text.dropEnd, List.reverse_append, List.reverse_cons, List.append_assoc,
    List.singleton_append, dropWhile_append_cons h, List.reverse_append, List.reverse_cons,
    List.reverse_reverse, List.append_assoc, List.singleton_append]
  rfl

theorem cleanEnd_append (front tail : List Char) :
    cleanEnd (front ++ '/' :: tail) = dropBreaks front ++ '/' :: cleanEnd tail := by
  rw [cleanEnd, dropEnd_append_cons (by rfl), dropBreaks, List.filter_append,
    List.filter_cons_of_pos (by decide)]
  rfl

theorem clean_append (front tail : List Char) :
    clean (front ++ '/' :: tail) =
      dropBreaks (front.dropWhile isEdge) ++ '/' :: cleanEnd tail := by
  rw [clean_eq, dropWhile_append_cons (by decide), cleanEnd_append]

/-! ## The scheme -/

/-- A slash in front of the first colon leaves no scheme. -/
theorem scheme?_of_forall (h : ∀ c ∈ front, (c == ':') = false) (tail : List Char) :
    scheme? (front ++ '/' :: tail) = none := by
  have hcut : cut (· == ':') (front ++ '/' :: tail) =
      (front ++ '/' :: (cut (· == ':') tail).1, (cut (· == ':') tail).2) := by
    have hmore : ∀ c ∈ front ++ ['/'], (c == ':') = false :=
      List.forall_mem_append.mpr ⟨h, List.forall_mem_singleton.mpr rfl⟩
    have happend := cut_append_of_forall hmore tail
    rwa [List.append_assoc, List.append_assoc] at happend
  rw [scheme?, hcut]
  cases (cut (· == ':') tail).2 with
  | nil => cases front <;> rfl
  | cons _ rest =>
    cases front with
    | nil => rw [List.nil_append]; exact if_neg fun hfirst ↦ absurd hfirst.1 (by decide)
    | cons first name =>
      refine if_neg fun hname ↦ ?_
      have hall := List.all_eq_true.mp hname.2 '/' (by simp)
      exact absurd hall (by decide)

/-- The scheme is found in front of a slash, or not at all. -/
theorem scheme?_append (front tail : List Char) :
    scheme? (front ++ '/' :: tail) =
      (scheme? front).map fun (scheme, rest) ↦ (scheme, rest ++ '/' :: tail) := by
  obtain hfront | ⟨name, c, rest, rfl, hname, hc⟩ := forall_or_exists_first (· == ':') front
  · rw [scheme?_of_forall hfront, scheme?, cut_of_forall hfront]
    cases front <;> rfl
  · have hstop (more : List Char) : cut (· == ':') (c :: more) = ([], c :: more) :=
      cut_cons_of_true (by exact hc) more
    rw [List.append_assoc, List.cons_append, scheme?, scheme?, cut_append_of_forall hname,
      cut_append_of_forall hname, hstop, hstop, List.append_nil]
    cases name with
    | nil => rfl
    | cons first name =>
      dsimp only
      split_ifs <;> rfl

/-! ## Query and fragment -/

/-- What a part holds behind the character that begins it. -/
def behind : List Char → Option (List Char)
  | [] => none
  | _ :: rest => some rest

theorem behind_eq_none_iff {part : List Char} : behind part = none ↔ part = [] := by
  cases part <;> simp [behind]

theorem cutTail_eq (text : List Char) :
    cutTail text =
      ((cut (· == '?') (cut (· == '#') text).1).1,
        behind (cut (· == '?') (cut (· == '#') text).1).2, behind (cut (· == '#') text).2) := rfl

theorem cutTail_append (h : '#' ∉ front ∧ '?' ∉ front) (tail : List Char) :
    cutTail (front ++ tail) = (front ++ (cutTail tail).1, (cutTail tail).2) := by
  have hsharp : ∀ c ∈ front, (c == '#') = false := fun c hc ↦
    beq_eq_false_iff_ne.mpr fun heq ↦ h.1 (heq ▸ hc)
  have hmark : ∀ c ∈ front, (c == '?') = false := fun c hc ↦
    beq_eq_false_iff_ne.mpr fun heq ↦ h.2 (heq ▸ hc)
  simp only [cutTail_eq, cut_append_of_forall hsharp, cut_append_of_forall hmark]

theorem cutTail_of_not_mem (h : '#' ∉ front ∧ '?' ∉ front) :
    cutTail front = (front, none, none) := by
  have hnil : cutTail [] = ([], none, none) := rfl
  have hall := cutTail_append h []
  rwa [List.append_nil, hnil, List.append_nil] at hall

theorem eq_false_of_mem_cut (h : c ∈ (cut test front).1) : test c = false := by
  rw [cut_eq] at h
  simpa using List.mem_takeWhile_imp h

theorem cut_fst_sublist (test : Char → Bool) (text : List Char) :
    (cut test text).1.Sublist text := by
  rw [cut_eq]
  exact List.takeWhile_sublist _

theorem cut_fst_of_snd (h : (cut test front).2 = []) : (cut test front).1 = front := by
  rw [cut_eq] at h ⊢
  exact List.takeWhile_eq_self_iff.mpr (List.dropWhile_eq_nil_iff.mp h)

theorem cutTail_fst_sublist (text : List Char) : (cutTail text).1.Sublist text :=
  (cut_fst_sublist _ _).trans (cut_fst_sublist _ text)

/-- What is left begins neither a query nor a fragment. -/
theorem not_mem_cutTail (text : List Char) : '#' ∉ (cutTail text).1 ∧ '?' ∉ (cutTail text).1 := by
  refine ⟨fun hsharp ↦ ?_, fun hmark ↦ ?_⟩
  · have hmem := (cut_fst_sublist _ _).subset hsharp
    exact absurd (eq_false_of_mem_cut hmem) (by decide)
  · exact absurd (eq_false_of_mem_cut hmark) (by decide)

/-- Where there is neither query nor fragment, nothing is cut off. -/
theorem cutTail_fst_of_snd (h : (cutTail front).2 = (none, none)) : (cutTail front).1 = front := by
  obtain ⟨hquery, hfragment⟩ := Prod.mk.inj (h : (_, _) = (none, none))
  have hsharp := cut_fst_of_snd (behind_eq_none_iff.mp hfragment)
  have hmark := cut_fst_of_snd (behind_eq_none_iff.mp hquery)
  exact hmark.trans hsharp

/-! ## What is kept of a text -/

theorem dropEnd_sublist (test : Char → Bool) (text : List Char) :
    (Text.dropEnd test text).Sublist text :=
  (List.rdropWhile_prefix test text).sublist

theorem dropEnd_eq_self_iff {text : List Char} :
    Text.dropEnd test text = text ↔ ∀ c ∈ text.getLast?, test c = false := by
  refine (List.rdropWhile_eq_self_iff (p := test) (l := text)).trans ?_
  constructor
  · intro h c hc
    obtain ⟨hne, rfl⟩ := List.mem_getLast?_eq_getLast hc
    exact eq_false_of_ne_true (h hne)
  · intro h hne
    exact ne_true_of_eq_false (h _ (List.getLast?_eq_some_getLast hne))

theorem dropBreaks_eq_self_iff {text : List Char} :
    dropBreaks text = text ↔ ∀ c ∈ text, c ∉ ['\t', '\n', '\r'] := by
  rw [dropBreaks, List.filter_eq_self]
  simp

theorem cleanEnd_sublist (text : List Char) : (cleanEnd text).Sublist text :=
  List.filter_sublist.trans (dropEnd_sublist isEdge text)

/-- A text of which nothing is dropped at the end of an address, and nothing begins a query or a
fragment. -/
structure IsKept (text : List Char) : Prop where
  inside : ∀ c ∈ text, c ∉ ['#', '?', '\t', '\n', '\r']
  edge : ∀ c ∈ text.getLast?, isEdge c = false

theorem IsKept.cutTail_eq {text : List Char} (h : IsKept text) :
    cutTail (cleanEnd text) = (text, none, none) := by
  have hinside := h.inside
  simp only [List.mem_cons, not_or] at hinside
  have hbreaks : dropBreaks text = text :=
    dropBreaks_eq_self_iff.mpr fun c hc ↦ by simpa using (hinside c hc).2.2
  rw [cleanEnd, dropEnd_eq_self_iff.mpr h.edge, hbreaks]
  exact cutTail_of_not_mem ⟨fun hc ↦ (hinside _ hc).1 rfl, fun hc ↦ (hinside _ hc).2.1 rfl⟩

/-- A text that is found again at the end of an address is kept in each step. -/
theorem isKept_of_cutTail {text : List Char} (h : (cutTail (cleanEnd text)).1 = text) :
    IsKept text := by
  have hclean : cleanEnd text = text := by
    have hle := cutTail_fst_sublist (cleanEnd text)
    rw [h] at hle
    exact (cleanEnd_sublist text).antisymm hle
  have hends : Text.dropEnd isEdge text = text := by
    have hle : (cleanEnd text).Sublist (Text.dropEnd isEdge text) := List.filter_sublist
    rw [hclean] at hle
    exact (dropEnd_sublist isEdge text).antisymm hle
  have hbreaks : dropBreaks text = text := by
    rwa [cleanEnd, hends] at hclean
  have hmarks := not_mem_cutTail (cleanEnd text)
  rw [h] at hmarks
  refine ⟨fun c hc ↦ ?_, dropEnd_eq_self_iff.mp hends⟩
  have hbreak := dropBreaks_eq_self_iff.mp hbreaks c hc
  simp only [List.mem_cons, not_or] at hbreak ⊢
  exact ⟨fun heq ↦ hmarks.1 (heq ▸ hc), fun heq ↦ hmarks.2 (heq ▸ hc), hbreak⟩

theorem cutTail_cleanEnd_append (hbreaks : dropBreaks front = front)
    (hmarks : '#' ∉ front ∧ '?' ∉ front) (tail : List Char) :
    cutTail (cleanEnd (front ++ '/' :: tail)) =
      (front ++ '/' :: (cutTail (cleanEnd tail)).1, (cutTail (cleanEnd tail)).2) := by
  have hslash : '#' ∉ front ++ ['/'] ∧ '?' ∉ front ++ ['/'] := by simpa using hmarks
  have happend := cutTail_append hslash (cleanEnd tail)
  rwa [List.append_assoc, List.append_assoc, ← hbreaks, List.singleton_append,
    ← cleanEnd_append, hbreaks] at happend

/-! ## The host -/

/-- The schemes of the web. -/
def IsWeb (scheme : String) : Prop := scheme = "http" ∨ scheme = "https"

theorem isSpecial_of_isWeb {scheme : String} (h : IsWeb scheme) : isSpecial scheme = true := by
  obtain rfl | rfl := h <;> rfl

theorem locate?_of_isWeb {scheme : String} (h : IsWeb scheme) (text : List Char) :
    locate? scheme text =
      (authority? scheme (cut (endsAuthority true) (text.dropWhile (isSlash true))).1).map
        fun (host, port) ↦ (host, port,
          hierarchicalPath true (cut (endsAuthority true) (text.dropWhile (isSlash true))).2) := by
  have hfile : (scheme == "file") = false := by obtain rfl | rfl := h <;> decide
  rw [locate?.eq_def, hfile, if_neg Bool.false_ne_true, isSpecial_of_isWeb h, if_pos rfl]
  exact (Option.map_eq_bind ..).symm

theorem authority?_nil {scheme : String} (h : IsWeb scheme) : authority? scheme [] = none := by
  obtain rfl | rfl := h <;> decide +kernel

/-- Behind a slash the path of an address goes on. -/
theorem hierarchicalPath_append (special : Bool) (front : List Char) :
    ∃ done, ∀ tail, hierarchicalPath special (front ++ '/' :: tail) =
      .segments (resolve [] (done ++ names special tail)) := by
  cases front with
  | nil => exact ⟨[], fun tail ↦ rfl⟩
  | cons c front =>
    refine ⟨names special (if isSlash special c then front else c :: front), fun tail ↦ ?_⟩
    have hslash : isSlash special '/' = true := rfl
    rw [← names_append hslash, List.cons_append, hierarchicalPath, segments_eq]
    split_ifs <;> rfl

/-- Behind a slash only the path goes on, if there is a host in front of it at all. -/
theorem locate?_append {scheme : String} (h : IsWeb scheme) {host : Option Host} {port : Option Nat}
    {path : UrlPath} (hfound : locate? scheme (front ++ ['/']) = some (host, port, path)) :
    ∃ done, ∀ tail, locate? scheme (front ++ '/' :: tail) =
      some (host, port, .segments (resolve [] (done ++ names true tail))) := by
  have hslash : endsAuthority true '/' = true := rfl
  rw [locate?_of_isWeb h] at hfound
  by_cases hnil : (front.dropWhile (isSlash true)).isEmpty = true
  · rw [List.dropWhile_append, if_pos hnil] at hfound
    rw [show List.dropWhile (isSlash true) ['/'] = [] from rfl, show cut (endsAuthority true) [] =
      ([], []) from rfl, authority?_nil h] at hfound
    cases hfound
  · rw [List.dropWhile_append, if_neg hnil, cut_append_cons hslash] at hfound
    obtain ⟨⟨_, _⟩, hauthority, heq⟩ := Option.map_eq_some_iff.mp hfound
    obtain ⟨rfl, rfl, -⟩ : _ = host ∧ _ = port ∧ _ = path := by simpa using heq
    obtain ⟨done, hdone⟩ :=
      hierarchicalPath_append true (cut (endsAuthority true) (front.dropWhile (isSlash true))).2
    refine ⟨done, fun tail ↦ ?_⟩
    rw [locate?_of_isWeb h, List.dropWhile_append, if_neg hnil, cut_append_cons hslash, hauthority,
      ← hdone]
    rfl

/-! ## The address -/

theorem parse?_eq_some_iff {text : String} {url : Url} :
    parse? text = some url ↔
      ∃ rest, scheme? (clean text.toList) = some (url.scheme, rest) ∧
        locate? url.scheme (cutTail rest).1 = some (url.host, url.port, url.path) ∧
        url.query = (cutTail rest).2.1.map (written (querySet (isSpecial url.scheme))) ∧
        url.fragment = (cutTail rest).2.2.map (written fragmentSet) := by
  simp only [parse?, Option.bind_eq_bind, Option.bind_eq_some_iff, Option.pure_def,
    Option.some.injEq]
  constructor
  · rintro ⟨⟨scheme, rest⟩, hscheme, ⟨host, port, path⟩, hlocate, rfl⟩
    exact ⟨rest, hscheme, hlocate, rfl, rfl⟩
  · rintro ⟨rest, hscheme, hlocate, hquery, hfragment⟩
    refine ⟨(url.scheme, rest), hscheme, (url.host, url.port, url.path), hlocate, ?_⟩
    cases url
    simp only [mk.injEq, true_and]
    exact ⟨hquery.symm, hfragment.symm⟩

/-- The address that a text leads to behind the slash at the end of another one.  The names of that
one are known in reverse. -/
def extend (root : Url) (above : List String) (text : List Char) : Url :=
  { root with
    path := .segments (resolve above (names true (cutTail text).1))
    query := (cutTail text).2.1.map (written (querySet true))
    fragment := (cutTail text).2.2.map (written fragmentSet) }

theorem isWeb_of_isRequestable {url : Url} (h : url.isRequestable = true) : IsWeb url.scheme := by
  simp only [isRequestable, Bool.and_eq_true, Bool.or_eq_true, beq_iff_eq] at h
  exact h.1.1

theorem isSome_host_of_isRequestable {url : Url} (h : url.isRequestable = true) :
    url.host.isSome = true := by
  cases hhost : url.host with
  | none => simp [isRequestable, hhost] at h
  | some _ => rfl

/-- Whether a request can be made is then a matter of length. -/
theorem isRequestable_extend {root : Url} (h : root.isRequestable = true) (above : List String)
    (text : List Char) :
    (root.extend above text).isRequestable =
      decide ((root.extend above text).text.utf8ByteSize ≤ longest) := by
  simp only [isRequestable, Bool.and_eq_true] at h
  obtain ⟨⟨hscheme, -⟩, hhost⟩ := h
  have hscheme' : (root.extend above text).scheme = root.scheme := rfl
  have hhost' : (root.extend above text).host = root.host := rfl
  rw [isRequestable, hscheme', hhost', hscheme, hhost, Bool.true_and, Bool.and_true]

/-- What is found in front of the slash at the end of an address begins no query and no fragment. -/
theorem exists_front {base : String} {root : Url} (hroot : parse? (base ++ "/") = some root)
    (hquery : root.query = none) (hfragment : root.fragment = none) :
    ∃ front, scheme? (dropBreaks (base.toList.dropWhile isEdge)) = some (root.scheme, front) ∧
      ('#' ∉ front ++ ['/'] ∧ '?' ∉ front ++ ['/']) ∧
      locate? root.scheme (front ++ ['/']) = some (root.host, root.port, root.path) := by
  have htext : (base ++ "/").toList = base.toList ++ ['/'] := by simp
  obtain ⟨rest, hscheme, hlocate, hquery', hfragment'⟩ := parse?_eq_some_iff.mp hroot
  rw [htext, clean_append, scheme?_append] at hscheme
  obtain ⟨⟨_, front⟩, hfront, heq⟩ := Option.map_eq_some_iff.mp hscheme
  obtain ⟨rfl, rfl⟩ : _ = root.scheme ∧ front ++ ['/'] = rest := by simpa using heq
  have hwhole : (cutTail (front ++ ['/'])).1 = front ++ ['/'] := by
    refine cutTail_fst_of_snd (Prod.ext ?_ ?_)
    · exact Option.map_eq_none_iff.mp (hquery'.symm.trans hquery)
    · exact Option.map_eq_none_iff.mp (hfragment'.symm.trans hfragment)
  have hmem := not_mem_cutTail (front ++ ['/'])
  rw [hwhole] at hmem hlocate
  exact ⟨front, hfront, hmem, hlocate⟩

/-- An address of the web that ends with a slash tells where every text behind that slash leads. -/
theorem parse?_append {base : String} {root : Url} (hroot : parse? (base ++ "/") = some root)
    (hweb : IsWeb root.scheme) (hquery : root.query = none) (hfragment : root.fragment = none) :
    ∃ above, root.path = .segments (above.reverse ++ [""]) ∧ ∀ tail : String,
      parse? (base ++ "/" ++ tail) = some (root.extend above (cleanEnd tail.toList)) := by
  obtain ⟨front, hfront, hmarks, hlocate⟩ := exists_front hroot hquery hfragment
  obtain ⟨done, hdone⟩ := locate?_append hweb hlocate
  refine ⟨done.foldl enter [], ?_, fun tail ↦ parse?_eq_some_iff.mpr
    ⟨front ++ '/' :: cleanEnd tail.toList, ?_⟩⟩
  · have hpath : _ = some (_, _, root.path) := (hdone []).symm.trans hlocate
    rw [names_of_forall (by simp)] at hpath
    exact (Prod.mk.inj (Prod.mk.inj (Option.some.inj hpath)).2).2.symm.trans
      (congrArg UrlPath.segments (resolve_append_empty [] done))
  have htext : (base ++ "/" ++ tail).toList = base.toList ++ '/' :: tail.toList := by simp
  have hcut : cutTail (front ++ '/' :: cleanEnd tail.toList) =
      (front ++ '/' :: (cutTail (cleanEnd tail.toList)).1, (cutTail (cleanEnd tail.toList)).2) := by
    have happend := cutTail_append hmarks (cleanEnd tail.toList)
    rwa [List.append_assoc, List.append_assoc] at happend
  rw [htext, clean_append, scheme?_append, hfront, hcut, extend,
    ← resolve_append (names_ne_nil true _)]
  refine ⟨rfl, hdone _, ?_, rfl⟩
  rw [isSpecial_of_isWeb hweb]

end PieceKeeper.Url
