import VerseSearch.Text.Basic

/-! # The names of the books

* `BookName.table`: the English names that rows use and the Hebrew names, in canonical order.
* `BookName.hebrew?`: the Hebrew name of an English one.
-/

namespace VerseSearch.BookName
set_option autoImplicit false

/-- The English and the Hebrew names of the books, in canonical order. -/
def table : List (Text × Text) :=
  [("Genesis".toList, "בראשית".toList),
   ("Exodus".toList, "שמות".toList),
   ("Leviticus".toList, "ויקרא".toList),
   ("Numbers".toList, "במדבר".toList),
   ("Deuteronomy".toList, "דברים".toList),
   ("Joshua".toList, "יהושע".toList),
   ("Judges".toList, "שופטים".toList),
   ("Samuel1".toList, "שמואל-א".toList),
   ("Samuel2".toList, "שמואל-ב".toList),
   ("Kings1".toList, "מלכים-א".toList),
   ("Kings2".toList, "מלכים-ב".toList),
   ("Isaiah".toList, "ישעיהו".toList),
   ("Jeremiah".toList, "ירמיהו".toList),
   ("Ezekiel".toList, "יחזקאל".toList),
   ("Hosea".toList, "הושע".toList),
   ("Joel".toList, "יואל".toList),
   ("Amos".toList, "עמוס".toList),
   ("Obadiah".toList, "עובדיה".toList),
   ("Jonah".toList, "יונה".toList),
   ("Micah".toList, "מיכה".toList),
   ("Nahum".toList, "נחום".toList),
   ("Habakkuk".toList, "חבקוק".toList),
   ("Zephaniah".toList, "צפניה".toList),
   ("Haggai".toList, "חגי".toList),
   ("Zechariah".toList, "זכריה".toList),
   ("Malachi".toList, "מלאכי".toList),
   ("Chronicles1".toList, "דברי-הימים-א".toList),
   ("Chronicles2".toList, "דברי-הימים-ב".toList),
   ("Psalm".toList, "תהילים".toList),
   ("Job".toList, "איוב".toList),
   ("Proverbs".toList, "משלי".toList),
   ("Ruth".toList, "רות".toList),
   ("SongOfSolomon".toList, "שיר-השירים".toList),
   ("Ecclesiastes".toList, "קהלת".toList),
   ("Lamentations".toList, "איכה".toList),
   ("Esther".toList, "אסתר".toList),
   ("Daniel".toList, "דניאל".toList),
   ("Ezra".toList, "עזרא".toList),
   ("Nehemiah".toList, "נחמיה".toList)]

/-- The Hebrew name of the book with an English name. -/
def hebrew? (english : Text) : Option Text := table.lookup english

end VerseSearch.BookName
