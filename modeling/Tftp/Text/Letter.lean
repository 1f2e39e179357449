namespace Tftp.Letter

def lower (s : String) : List Char :=
  s.toList.map Char.toLower

abbrev SameName (s t : String) : Prop :=
  lower s = lower t

theorem SameName.symm {s t : String} (h : SameName s t) : SameName t s := Eq.symm h

theorem SameName.trans {s t u : String} (h : SameName s t) (h' : SameName t u) : SameName s u :=
  Eq.trans h h'

end Tftp.Letter
