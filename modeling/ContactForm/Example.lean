namespace ContactForm

def exampleLines : List String := [
  "\x7b",
  "  \"email\": \"contact@example.com\",",
  "  \"title\": \"Contact Us\",",
  "  \"subject\": \"New contact form submission\",",
  "  \"form_backend_url\": \"https://forms.example.com/submit\",",
  "  \"ignore_file_upload\": false,",
  "  \"instructions\": [",
  "    \"<p>\",",
  "    \"Fill out the form below and we will get back to you.\",",
  "    \"</p>\"",
  "  ],",
  "  \"questions\": [",
  "    \x7b",
  "      \"label\": \"Full Name\",",
  "      \"name\": \"name\",",
  "      \"type\": \"text\",",
  "      \"required\": true",
  "    \x7d,",
  "    \x7b",
  "      \"label\": \"Email Address\",",
  "      \"name\": \"email\",",
  "      \"type\": \"email\",",
  "      \"required\": true",
  "    \x7d,",
  "    \x7b",
  "      \"label\": [\"Which topic\", \"is this about?\"],",
  "      \"name\": \"topic\",",
  "      \"type\": \"selectbox\",",
  "      \"required\": true,",
  "      \"options\": [",
  "        \x7b \"label\": \"--Select one--\", \"value\": \"\", \"selected\": true, \"disabled\": true \x7d,",
  "        \x7b \"label\": \"Support\", \"value\": \"support\" \x7d,",
  "        \x7b \"label\": \"Sales\", \"value\": \"sales\" \x7d",
  "      ]",
  "    \x7d,",
  "    \x7b",
  "      \"label\": \"Preferred Date\",",
  "      \"name\": \"date\",",
  "      \"type\": \"date\",",
  "      \"required\": false",
  "    \x7d,",
  "    \x7b",
  "      \"label\": \"Attachment\",",
  "      \"name\": \"attachment\",",
  "      \"type\": \"file\",",
  "      \"required\": false,",
  "      \"custom\": \x7b \"accept\": \"image/*\", \"multiple\": true \x7d",
  "    \x7d,",
  "    \x7b",
  "      \"label\": \"Message\",",
  "      \"name\": \"message\",",
  "      \"type\": \"textarea\",",
  "      \"required\": true",
  "    \x7d",
  "  ]",
  "\x7d"]

/-- A document that uses every field of a configuration. -/
def Config.exampleText : String :=
  String.join (exampleLines.map (· ++ "\n"))

end ContactForm
